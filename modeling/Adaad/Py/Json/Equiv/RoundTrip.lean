import Adaad.Py.Json.Equiv.Chars
import Adaad.Py.Json.Equiv.Parse

/-!
# Reading back what was written

`loads (dumps v)` is `image v` for every value and both layouts (`loads_dumps`), and `image v` is
`v` itself exactly when the value is plain data (`image_eq_self_iff`).

The first of these is proved for any way to spell the characters beyond ASCII (`Spelling`), since
`json.dumps` escapes them unless it is told not to.
-/

namespace Py

variable (P : Platform)

/-! ### String literals -/

/-- The character or code unit of a string literal. -/
def StrUnit.code : StrUnit → Nat
  | .unit u => u
  | .char c => c

theorem joinUnits_of_lt {us : List StrUnit} (h : ∀ u, .unit u ∈ us → u < 32) :
    joinUnits us = us.map StrUnit.code := by
  fun_induction joinUnits us with
  | case1 => rfl
  | case2 c us ih =>
    rw [ih fun u hu => h u (by simp [hu])]
    rfl
  | case3 u l us' hs _ =>
    have := h u (by simp)
    simp only [isHighSurrogate, Bool.and_eq_true, decide_eq_true_eq] at hs
    omega
  | case4 u l us' _ ih =>
    rw [ih fun u hu => h u (by simp only [List.mem_cons] at hu ⊢; tauto)]
    rfl
  | case5 u us _ ih =>
    rw [ih fun u hu => h u (by simp [hu])]
    rfl

theorem scanUnits_escapeChar (c : Nat) (r : Str) :
    ∃ u : StrUnit, u.code = c ∧ (∀ x, u = .unit x → x < 32) ∧
      scanUnits (escapeChar c ++ r) = (scanUnits r).map (pushUnit u) := by
  unfold escapeChar
  split_ifs with h1 h2 h3 h4 h5 h6 h7 h8
  · exact ⟨.char c, rfl, by simp, by subst h1; exact scanUnits_escape (by decide) r⟩
  · exact ⟨.char c, rfl, by simp, by subst h2; exact scanUnits_escape (by decide) r⟩
  · exact ⟨.char c, rfl, by simp, by subst h3; exact scanUnits_escape (by decide) r⟩
  · exact ⟨.char c, rfl, by simp, by subst h4; exact scanUnits_escape (by decide) r⟩
  · exact ⟨.char c, rfl, by simp, by subst h5; exact scanUnits_escape (by decide) r⟩
  · exact ⟨.char c, rfl, by simp, by subst h6; exact scanUnits_escape (by decide) r⟩
  · exact ⟨.char c, rfl, by simp, by subst h7; exact scanUnits_escape (by decide) r⟩
  · refine ⟨.unit c, rfl, by rintro x ⟨⟩; exact h8, ?_⟩
    have hhex : ∀ x < 32, hex4 48 48 (hexDigit (x / 16)) (hexDigit (x % 16)) = some x := by
      decide
    simp only [List.cons_append, List.nil_append]
    rw [scanUnits_unit, hhex c h8, Option.bind_some]
  · exact ⟨.char c, rfl, by simp, scanUnits_char h1 h2 h8 r⟩

private theorem scanUnits_escape_append (s r : Str) :
    ∃ us, us.map StrUnit.code = s ∧ (∀ u, .unit u ∈ us → u < 32) ∧
      scanUnits (escape s ++ quote :: r) = some (us, r) := by
  induction s with
  | nil => exact ⟨[], rfl, by simp, scanUnits_quote r⟩
  | cons c s ih =>
    obtain ⟨us, hus, hlt, hscan⟩ := ih
    obtain ⟨u, hu, hult, hc⟩ := scanUnits_escapeChar c (escape s ++ quote :: r)
    refine ⟨u :: us, by simp [hu, hus], ?_, ?_⟩
    · intro x hx
      rcases List.mem_cons.mp hx with hx | hx
      · exact hult x hx.symm
      · exact hlt x hx
    · show scanUnits (escapeChar c ++ escape s ++ quote :: r) = _
      rw [List.append_assoc, hc, hscan]
      rfl

theorem scanString_escape (s r : Str) : scanString (escape s ++ quote :: r) = some (s, r) := by
  obtain ⟨us, hus, hlt, hscan⟩ := scanUnits_escape_append s r
  rw [scanString, hscan, Option.map_some, joinUnits_of_lt hlt, hus]

/-! ### Scalars -/

private theorem parseName_text (t : Str) (v : P.Obj) (r : Str) :
    parseName P t v (t ++ r) = some (v, r) := by
  rw [parseName, if_pos (List.isPrefixOf_iff_prefix.mpr (List.prefix_append t r)),
    List.drop_left]

private theorem parseScalar_nan (r : Str) :
    parseScalar P 78 (str "aN" ++ r) = some (.float (P.floatOf .nan), r) := by
  unfold parseScalar
  rw [if_neg (by decide), if_neg (by decide), if_neg (by decide), if_pos rfl]
  exact parseName_text P _ _ r

private theorem parseScalar_infinity (r : Str) :
    parseScalar P 73 (str "nfinity" ++ r) = some (.float (P.floatOf .infinity), r) := by
  unfold parseScalar
  rw [if_neg (by decide), if_neg (by decide), if_neg (by decide), if_neg (by decide), if_pos rfl]
  exact parseName_text P _ _ r

private theorem parseScalar_negInfinity (r : Str) :
    parseScalar P 45 (str "Infinity" ++ r) = some (.float (P.floatOf .negInfinity), r) := by
  have hpre : (str "Infinity").isPrefixOf (str "Infinity" ++ r) = true :=
    List.isPrefixOf_iff_prefix.mpr (List.prefix_append _ _)
  unfold parseScalar
  rw [if_neg (by decide), if_neg (by decide), if_neg (by decide), if_neg (by decide),
    if_neg (by decide), if_pos ⟨rfl, hpre⟩]
  exact parseName_text P _ _ r

theorem NumLit.text_head {l : NumLit} (hl : l.WF) :
    ∃ c t, l.text = c :: t ∧
      (isDigit c = true ∨ c = 45 ∧ ∃ d t', t = d :: t' ∧ isDigit d = true) := by
  obtain ⟨d, ds, hint⟩ := List.exists_cons_of_ne_nil hl.int_ne
  have hd := hl.int_digit d (by simp [hint])
  unfold text signText
  rw [hint]
  cases l.neg with
  | false => exact ⟨d, _, rfl, .inl hd⟩
  | true => exact ⟨45, _, rfl, .inr ⟨rfl, d, _, rfl, hd⟩⟩

private theorem parseScalar_number {l : NumLit} (hl : l.WF) {r : Str} (hr : NumEnd r) {c : Nat}
    {t : Str} (ht : l.text = c :: t) :
    parseScalar P c (t ++ r) = some (numberOf P l, r) := by
  have hscan := scanNumber_text hl hr
  obtain ⟨c', t', ht', hhead⟩ := NumLit.text_head hl
  obtain ⟨rfl, rfl⟩ := List.cons.inj (ht'.symm.trans ht)
  have hne : ∀ x, 57 < x → c' ≠ x := by
    rintro x hx rfl
    rcases hhead with hd | ⟨rfl, -⟩
    · simp only [isDigit, Bool.and_eq_true, decide_eq_true_eq] at hd
      omega
    · omega
  have hminus : ¬ (c' = 45 ∧ (str "Infinity").isPrefixOf (t' ++ r) = true) := by
    rintro ⟨rfl, hpre⟩
    rcases hhead with hd | ⟨-, d, t'', rfl, hd⟩
    · exact absurd hd (by decide)
    · obtain ⟨u, hu⟩ := List.isPrefixOf_iff_prefix.mp hpre
      obtain ⟨rfl, -⟩ := List.cons.inj hu
      exact absurd hd (by decide)
  unfold parseScalar
  rw [if_neg (hne _ (by decide)), if_neg (hne _ (by decide)), if_neg (hne _ (by decide)),
    if_neg (hne _ (by decide)), if_neg (hne _ (by decide)), if_neg hminus, ← List.cons_append,
    ← ht, hscan, Option.map_some]

/-! ### The first character -/

def ValueHead (c : Nat) : Prop :=
  isJsonSpace c = false ∧ c ≠ 93 ∧ c ≠ 125 ∧ c ≠ 44 ∧ c ≠ 58

private theorem NumLit.valueHead_text {l : NumLit} (hl : l.WF) :
    ∃ c t, l.text = c :: t ∧ (ValueHead c ∧ c < 127) ∧ c ≠ quote ∧ c ≠ 123 ∧ c ≠ 91 := by
  obtain ⟨c, t, ht, hc⟩ := NumLit.text_head hl
  have hc' : c = 45 ∨ 48 ≤ c ∧ c ≤ 57 := by
    rcases hc with hd | ⟨rfl, -⟩
    · right
      simpa [isDigit] using hd
    · exact .inl rfl
  refine ⟨c, t, ht, ⟨⟨?_, ?_⟩, ?_⟩, ?_⟩
  · simp only [isJsonSpace, Bool.or_eq_false_iff, beq_eq_false_iff_ne]
    omega
  · omega
  · omega
  · simp only [quote]
    omega

private theorem valueHead_floatJson (x : P.Float) :
    ∃ c t, floatJson P x = c :: t ∧ (ValueHead c ∧ c < 127) ∧ c ≠ quote ∧ c ≠ 123 ∧ c ≠ 91 := by
  unfold floatJson
  split
  · exact ⟨78, str "aN", rfl, by unfold ValueHead; decide⟩
  · exact ⟨73, str "nfinity", rfl, by unfold ValueHead; decide⟩
  · exact ⟨45, str "Infinity", rfl, by unfold ValueHead; decide⟩
  · next l hl => exact NumLit.valueHead_text (P.floatText_wf x l hl).1

theorem dumps_head (L : Layout) (v : P.Obj) :
    ∃ c t, dumps P L v = c :: t ∧ ValueHead c ∧ c < 127 := by
  cases v with
  | none => exact ⟨110, str "ull", rfl, by unfold ValueHead; decide⟩
  | bool b =>
    cases b
    · exact ⟨102, str "alse", rfl, by unfold ValueHead; decide⟩
    · exact ⟨116, str "rue", rfl, by unfold ValueHead; decide⟩
  | int i =>
    obtain ⟨c, t, ht, hc, -⟩ := NumLit.valueHead_text (NumLit.ofInt_wf i)
    exact ⟨c, t, by rw [dumps]; exact ht, hc⟩
  | float x =>
    obtain ⟨c, t, ht, hc, -⟩ := valueHead_floatJson P x
    exact ⟨c, t, by rw [dumps]; exact ht, hc⟩
  | str s => exact ⟨quote, _, by rw [dumps]; rfl, by unfold ValueHead; decide⟩
  | list xs =>
    cases xs with
    | nil => exact ⟨91, [93], by rw [dumps]; rfl, by unfold ValueHead; decide⟩
    | cons x xs => exact ⟨91, _, by rw [dumps], by unfold ValueHead; decide⟩
  | tuple xs =>
    cases xs with
    | nil => exact ⟨91, [93], by rw [dumps]; rfl, by unfold ValueHead; decide⟩
    | cons x xs => exact ⟨91, _, by rw [dumps], by unfold ValueHead; decide⟩
  | dict kvs =>
    cases kvs with
    | nil => exact ⟨123, [125], by rw [dumps]; rfl, by unfold ValueHead; decide⟩
    | cons kv kvs => exact ⟨123, _, by rw [dumps], by unfold ValueHead; decide⟩

/-! ### Spellings -/

/-- A way to spell the characters of a document: ASCII is left alone, and a string literal is read
as some text. -/
structure Spelling where
  char : Nat → Str
  read : Str → Str
  char_ascii : ∀ c < 127, char c = [c]
  read_ascii : ∀ s, (∀ c ∈ s, c < 127) → read s = s
  scanString_escape : ∀ s r,
    scanString ((escape s).flatMap char ++ quote :: r) = some (read s, r)

namespace Spelling

variable (S : Spelling)

def text (t : Str) : Str :=
  t.flatMap S.char

@[simp] theorem text_nil : S.text [] = [] := rfl

theorem text_append (s t : Str) : S.text (s ++ t) = S.text s ++ S.text t :=
  List.flatMap_append

theorem text_cons {c : Nat} (hc : c < 127) (t : Str) : S.text (c :: t) = c :: S.text t := by
  rw [text, List.flatMap_cons, S.char_ascii c hc]
  rfl

theorem text_of_ascii {t : Str} (h : ∀ c ∈ t, c < 127) : S.text t = t := by
  induction t with
  | nil => rfl
  | cons c t ih =>
    rw [S.text_cons (h c (by simp)), ih fun d hd => h d (by simp [hd])]

theorem text_itemSep (L : Layout) : S.text L.itemSep = L.itemSep := by
  cases L <;> exact S.text_of_ascii (by decide)

theorem text_keySep (L : Layout) : S.text L.keySep = L.keySep := by
  cases L <;> exact S.text_of_ascii (by decide)

theorem text_quoteStr (s : Str) :
    S.text (quoteStr s) = quote :: ((escape s).flatMap S.char ++ [quote]) := by
  rw [quoteStr, S.text_cons (by decide), S.text_append, S.text_of_ascii (t := [quote]) (by decide)]
  rfl

theorem text_dumps_head (L : Layout) (v : P.Obj) :
    ∃ c t, S.text (dumps P L v) = c :: t ∧ ValueHead c := by
  obtain ⟨c, t, ht, hc, hlt⟩ := dumps_head P L v
  exact ⟨c, S.text t, by rw [ht, S.text_cons hlt], hc⟩

theorem skipWs_dumps (L : Layout) (v : P.Obj) (r : Str) :
    skipWs (S.text (dumps P L v) ++ r) = S.text (dumps P L v) ++ r := by
  obtain ⟨c, t, ht, hc⟩ := S.text_dumps_head P L v
  rw [ht, List.cons_append, skipWs_cons_of_not hc.1]

theorem read_keyName (k : Key P.Float) : S.read (keyName P k) = keyName P (k.mapStr S.read) := by
  cases k with
  | str s => rfl
  | int i => exact S.read_ascii _ fun c hc => (printable_of_mem_intText hc).2
  | float x => exact S.read_ascii _ fun c hc => (printable_of_mem_floatJson P hc).2
  | bool b => exact S.read_ascii _ fun c hc => (printable_of_mem_boolJson hc).2
  | none => exact S.read_ascii (str "null") (by decide)

end Spelling

/-! ### Values -/

section spelled

variable (S : Spelling) (L : Layout)

/-- `v` is read back from the front of any text in which it is written. -/
private def ReadsBack (v : P.Obj) : Prop :=
  ∀ r m, NumEnd r → 2 * (S.text (dumps P L v) ++ r).length + 1 ≤ m →
    parseValue P m (S.text (dumps P L v) ++ r) = some (image P (v.mapStr S.read), r)

variable {L}

private theorem readsBack_scalar {v : P.Obj} {c : Nat} {t : Str} (ht : dumps P L v = c :: t)
    (hascii : ∀ x ∈ c :: t, x < 127) (hq : c ≠ quote) (hb : c ≠ 123) (hb' : c ≠ 91)
    (h : ∀ r, NumEnd r → parseScalar P c (t ++ r) = some (image P (v.mapStr S.read), r)) :
    ReadsBack P S L v := by
  intro r m hr hm
  obtain ⟨m, rfl⟩ : ∃ k, m = k + 1 := ⟨m - 1, by omega⟩
  rw [ht, S.text_of_ascii hascii, List.cons_append, parseValue_cons, if_neg hq, if_neg hb,
    if_neg hb', h r hr]

private theorem readsBack_number {v : P.Obj} {l : NumLit} (hl : l.WF)
    (ht : dumps P L v = l.text) (hv : numberOf P l = image P (v.mapStr S.read)) :
    ReadsBack P S L v := by
  obtain ⟨c, t, hc, -, hq, hb, hb'⟩ := NumLit.valueHead_text hl
  have hascii : ∀ x ∈ c :: t, x < 127 := by
    intro x hx
    rw [← hc] at hx
    exact (NumLit.printable_of_mem_text hl hx).2
  refine readsBack_scalar P S (ht.trans hc) hascii hq hb hb' fun r hr => ?_
  rw [parseScalar_number P hl hr hc, hv]

private theorem readsBack_float (x : P.Float) : ReadsBack P S L (.float x) := by
  have hback := P.floatOf_floatText x
  have hx : dumps P L (.float x) = floatJson P x := by rw [dumps]
  have himage : image P ((Value.float x).mapStr S.read) = .float x := by
    rw [Value.mapStr, image] <;> simp
  rw [floatJson] at hx
  rcases hf : P.floatText x with _ | _ | _ | l
  · rw [hf] at hback hx
    refine readsBack_scalar P S (c := 78) (t := str "aN") hx (by decide) (by decide) (by decide)
      (by decide) fun r _ => ?_
    rw [parseScalar_nan, himage, hback]
  · rw [hf] at hback hx
    refine readsBack_scalar P S (c := 73) (t := str "nfinity") hx (by decide) (by decide)
      (by decide) (by decide) fun r _ => ?_
    rw [parseScalar_infinity, himage, hback]
  · rw [hf] at hback hx
    refine readsBack_scalar P S (c := 45) (t := str "Infinity") hx (by decide) (by decide)
      (by decide) (by decide) fun r _ => ?_
    rw [parseScalar_negInfinity, himage, hback]
  · rw [hf] at hback hx
    obtain ⟨hwf, hfloat⟩ := P.floatText_wf x l hf
    refine readsBack_number P S hwf hx ?_
    rw [numberOf, hfloat, if_pos rfl, hback, himage]

private theorem skipWs_itemSep (L : Layout) {c : Nat} (hc : isJsonSpace c = false) (r : Str) :
    ∃ u, L.itemSep ++ c :: r = 44 :: u ∧ skipWs u = c :: r := by
  cases L with
  | spaced => exact ⟨32 :: c :: r, rfl, skipWs_cons_of_not hc r⟩
  | compact => exact ⟨c :: r, rfl, skipWs_cons_of_not hc r⟩

private theorem skipWs_keySep (L : Layout) {c : Nat} (hc : isJsonSpace c = false) (r : Str) :
    ∃ u, L.keySep ++ c :: r = 58 :: u ∧ skipWs u = c :: r := by
  cases L with
  | spaced => exact ⟨32 :: c :: r, rfl, skipWs_cons_of_not hc r⟩
  | compact => exact ⟨c :: r, rfl, skipWs_cons_of_not hc r⟩

private theorem numEnd_dumpsItems (xs : List P.Obj) (r : Str) :
    NumEnd (S.text (dumpsItems P L xs) ++ r) := by
  cases xs with
  | nil =>
    rw [dumpsItems, S.text_of_ascii (by decide)]
    exact numEnd_cons.mpr (by decide)
  | cons x xs =>
    rw [dumpsItems, S.text_append, S.text_itemSep]
    cases L <;> exact numEnd_cons.mpr (by decide)

private theorem numEnd_dumpsMembers (ms : Members P.Float) (r : Str) :
    NumEnd (S.text (dumpsMembers P L ms) ++ r) := by
  cases ms with
  | nil =>
    rw [dumpsMembers, S.text_of_ascii (by decide)]
    exact numEnd_cons.mpr (by decide)
  | cons m ms =>
    obtain ⟨k, v⟩ := m
    rw [dumpsMembers, S.text_append, S.text_itemSep]
    cases L <;> exact numEnd_cons.mpr (by decide)

private theorem parseItems_dumps {xs : List P.Obj} (hxs : ∀ y ∈ xs, ReadsBack P S L y)
    {x : P.Obj} (hx : ReadsBack P S L x) {r : Str} {m : Nat}
    (hm : 2 * (S.text (dumps P L x) ++ (S.text (dumpsItems P L xs) ++ r)).length + 2 ≤ m) :
    parseItems P m (S.text (dumps P L x) ++ (S.text (dumpsItems P L xs) ++ r)) =
      some (imageList P (mapStrList S.read (x :: xs)), r) := by
  obtain ⟨m, rfl⟩ : ∃ k, m = k + 1 := ⟨m - 1, by omega⟩
  have hread := hx _ m (numEnd_dumpsItems P S (L := L) xs r) (by omega)
  refine (parseItems_eq_some P).mpr ?_
  induction xs generalizing x m with
  | nil =>
    refine ⟨m, _, _, 93, r, rfl, hread, ?_, .inr ⟨rfl, rfl, rfl⟩⟩
    rw [dumpsItems, S.text_of_ascii (by decide)]
    rfl
  | cons y ys ih =>
    obtain ⟨c, t, ht, hc⟩ := S.text_dumps_head P L y
    obtain ⟨u, hu, hskip⟩ :=
      skipWs_itemSep L hc.1 (t ++ (S.text (dumpsItems P L ys) ++ r))
    have hrest : S.text (dumpsItems P L (y :: ys)) ++ r = 44 :: u := by
      rw [dumpsItems, S.text_append, S.text_itemSep, S.text_append, ht, ← hu]
      simp only [List.append_assoc, List.cons_append]
    have hnext : skipWs u = S.text (dumps P L y) ++ (S.text (dumpsItems P L ys) ++ r) := by
      rw [hskip, ht, List.cons_append]
    have hlen := length_skipWs_le u
    rw [hrest, List.length_append, List.length_cons] at hm
    rw [hnext] at hlen
    obtain ⟨m, rfl⟩ : ∃ k, m = k + 1 := ⟨m - 1, by omega⟩
    have hy := hxs y (by simp)
    have hitems := ih (fun z hz => hxs z (by simp [hz])) hy (m := m) (by omega)
      (hy _ m (numEnd_dumpsItems P S (L := L) ys r) (by omega))
    refine ⟨m + 1, _, _, 44, u, rfl, hread, ?_,
      .inl ⟨rfl, imageList P (mapStrList S.read (y :: ys)), ?_, rfl⟩⟩
    · rw [hrest, skipWs_cons_of_not (by decide)]
    · rw [hnext]
      exact (parseItems_eq_some P).mpr hitems

private theorem exists_member (k : Key P.Float) (v : P.Obj) (r : Str) :
    ∃ t u, S.text (quoteStr (keyName P k)) ++ (L.keySep ++ (S.text (dumps P L v) ++ r)) =
        quote :: t ∧
      scanString t = some (keyName P (k.mapStr S.read), 58 :: u) ∧
      skipWs u = S.text (dumps P L v) ++ r ∧
      (S.text (dumps P L v) ++ r).length < t.length := by
  obtain ⟨c, x, hx, hc⟩ := S.text_dumps_head P L v
  obtain ⟨u, hu, hskip⟩ := skipWs_keySep L hc.1 (x ++ r)
  have hval : S.text (dumps P L v) ++ r = c :: (x ++ r) := by rw [hx, List.cons_append]
  have hscan := S.scanString_escape (keyName P k) (58 :: u)
  rw [S.read_keyName, ← hu, ← hval] at hscan
  refine ⟨_, u, by rw [S.text_quoteStr, List.cons_append], ?_, hskip.trans hval.symm, ?_⟩
  · rw [List.append_assoc, List.singleton_append, hscan, hval, hu]
  · simp only [List.length_append, List.length_cons]
    omega

private theorem parseMembers_dumps {ms : Members P.Float}
    (hms : ∀ x ∈ ms, ReadsBack P S L x.2) {k : Key P.Float} {v : P.Obj}
    (hv : ReadsBack P S L v) {r : Str} {m : Nat}
    (hm : 2 * (S.text (quoteStr (keyName P k)) ++ (L.keySep ++ (S.text (dumps P L v) ++
      (S.text (dumpsMembers P L ms) ++ r)))).length + 2 ≤ m) :
    parseMembers P m (S.text (quoteStr (keyName P k)) ++ (L.keySep ++ (S.text (dumps P L v) ++
      (S.text (dumpsMembers P L ms) ++ r)))) =
        some (imageMembers P (mapStrMembers S.read ((k, v) :: ms)), r) := by
  obtain ⟨m, rfl⟩ : ∃ k, m = k + 1 := ⟨m - 1, by omega⟩
  induction ms generalizing k v m with
  | nil =>
    obtain ⟨t, u, ht, hk, hu, hlen⟩ := exists_member P S k v (S.text (dumpsMembers P L []) ++ r)
    rw [ht, List.length_cons] at hm
    have hread := hv _ m (numEnd_dumpsMembers P S (L := L) [] r) (by omega)
    have hend : skipWs (S.text (dumpsMembers P L []) ++ r) = 125 :: r := by
      rw [dumpsMembers, S.text_of_ascii (by decide)]
      rfl
    rw [ht]
    exact (parseMembers_eq_some P).mpr ⟨m, t, _, _, u, _, _, 125, r, rfl, rfl, hk,
      skipWs_cons_of_not (by decide) u, by rw [hu, hread], hend, .inr ⟨rfl, rfl, rfl⟩⟩
  | cons y ys ih =>
    obtain ⟨k', v'⟩ := y
    obtain ⟨t, u, ht, hk, hu, hlen⟩ :=
      exists_member P S k v (S.text (dumpsMembers P L ((k', v') :: ys)) ++ r)
    rw [ht, List.length_cons] at hm
    have hread := hv _ m (numEnd_dumpsMembers P S (L := L) ((k', v') :: ys) r) (by omega)
    obtain ⟨w, hw, hskip⟩ := skipWs_itemSep L (c := quote) (by decide)
      ((escape (keyName P k')).flatMap S.char ++ [quote] ++ (L.keySep ++ (S.text (dumps P L v') ++
        (S.text (dumpsMembers P L ys) ++ r))))
    have hrest : S.text (dumpsMembers P L ((k', v') :: ys)) ++ r = 44 :: w := by
      rw [dumpsMembers, ← hw, S.text_append, S.text_append, S.text_append, S.text_append,
        S.text_itemSep, S.text_keySep, S.text_quoteStr]
      simp only [List.append_assoc, List.cons_append]
    have hnext : skipWs w = S.text (quoteStr (keyName P k')) ++ (L.keySep ++
        (S.text (dumps P L v') ++ (S.text (dumpsMembers P L ys) ++ r))) := by
      rw [hskip, S.text_quoteStr, List.cons_append]
    have hlen' := length_skipWs_le w
    rw [hrest, List.length_append, List.length_cons] at hlen
    rw [hnext] at hlen'
    obtain ⟨m, rfl⟩ : ∃ k, m = k + 1 := ⟨m - 1, by omega⟩
    have hmembers := ih (fun z hz => hms z (by simp [hz])) (k := k') (v := v')
      (hms (k', v') (by simp)) m (by omega)
    rw [ht]
    refine (parseMembers_eq_some P).mpr ⟨m + 1, t, _, _, u, _, _, 44, w, rfl, rfl, hk,
      skipWs_cons_of_not (by decide) u, by rw [hu, hread], ?_,
      .inl ⟨rfl, imageMembers P (mapStrMembers S.read ((k', v') :: ys)), ?_, rfl⟩⟩
    · rw [hrest, skipWs_cons_of_not (by decide)]
    · rw [hnext, hmembers]

private theorem readsBack_array {xs : List P.Obj} (hxs : ∀ x ∈ xs, ReadsBack P S L x)
    {v : P.Obj} (hd : dumps P L v = dumps P L (.list xs))
    (hv : image P (v.mapStr S.read) = .list (imageList P (mapStrList S.read xs))) :
    ReadsBack P S L v := by
  intro r m _ hm
  obtain ⟨m, rfl⟩ : ∃ k, m = k + 1 := ⟨m - 1, by omega⟩
  rw [hd] at hm ⊢
  rw [hv]
  cases xs with
  | nil =>
    rw [dumps, S.text_of_ascii (by decide)]
    rfl
  | cons x xs =>
    obtain ⟨c, t, ht, hc⟩ := S.text_dumps_head P L x
    rw [dumps, S.text_cons (by decide), S.text_append, List.cons_append, List.append_assoc]
      at hm ⊢
    have hskip := S.skipWs_dumps P L x (S.text (dumpsItems P L xs) ++ r)
    have hhead : (S.text (dumps P L x) ++ (S.text (dumpsItems P L xs) ++ r)).head? ≠ some 93 := by
      rw [ht]
      simpa using hc.2.1
    rw [List.length_cons] at hm
    rw [parseValue_cons, if_neg (by decide), if_neg (by decide), if_pos rfl, hskip,
      if_neg hhead,
      parseItems_dumps P S (fun y hy => hxs y (by simp [hy])) (hxs x (by simp)) (by omega)]
    rfl

private theorem readsBack_object {kvs : Members P.Float}
    (hkvs : ∀ x ∈ kvs, ReadsBack P S L x.2) : ReadsBack P S L (.dict kvs) := by
  intro r m _ hm
  obtain ⟨m, rfl⟩ : ∃ k, m = k + 1 := ⟨m - 1, by omega⟩
  cases kvs with
  | nil =>
    rw [dumps, S.text_of_ascii (by decide)]
    rfl
  | cons kv kvs =>
    obtain ⟨k, v⟩ := kv
    rw [dumps, S.text_cons (by decide), S.text_append, S.text_append, S.text_append,
      S.text_keySep, List.cons_append] at hm ⊢
    simp only [List.append_assoc] at hm ⊢
    rw [List.length_cons] at hm
    have hrest : ∀ y ∈ kvs, ReadsBack P S L y.2 := fun y hy => hkvs y (by simp [hy])
    have hmembers := parseMembers_dumps P S hrest (k := k) (v := v) (hkvs (k, v) (by simp))
      (r := r) (m := m) (by omega)
    have hskip : skipWs (S.text (quoteStr (keyName P k)) ++ (L.keySep ++ (S.text (dumps P L v) ++
        (S.text (dumpsMembers P L kvs) ++ r)))) = S.text (quoteStr (keyName P k)) ++ (L.keySep ++
        (S.text (dumps P L v) ++ (S.text (dumpsMembers P L kvs) ++ r))) := by
      rw [S.text_quoteStr, List.cons_append, skipWs_cons_of_not (by decide)]
    rw [parseValue_cons, if_neg (by decide), if_pos rfl, hskip,
      if_neg (by simp [S.text_quoteStr, quote]), hmembers]
    rw [Value.mapStr, image]
    rfl

variable (L) in
private theorem readsBack (v : P.Obj) : ReadsBack P S L v := by
  induction v using Value.ind with
  | none =>
    refine readsBack_scalar P S (c := 110) (t := str "ull") rfl (by decide) (by decide) (by decide)
      (by decide) fun r _ => ?_
    unfold parseScalar
    rw [if_pos rfl]
    exact parseName_text P _ _ r
  | bool b =>
    cases b with
    | false =>
      refine readsBack_scalar P S (c := 102) (t := str "alse") rfl (by decide) (by decide)
        (by decide) (by decide) fun r _ => ?_
      unfold parseScalar
      rw [if_neg (by decide), if_neg (by decide), if_pos rfl]
      exact parseName_text P _ _ r
    | true =>
      refine readsBack_scalar P S (c := 116) (t := str "rue") rfl (by decide) (by decide)
        (by decide) (by decide) fun r _ => ?_
      unfold parseScalar
      rw [if_neg (by decide), if_pos rfl]
      exact parseName_text P _ _ r
  | int i =>
    refine readsBack_number P S (NumLit.ofInt_wf i) (by rw [dumps]; rfl) ?_
    rw [numberOf, NumLit.isFloat_ofInt, NumLit.intValue_ofInt]
    rfl
  | float x => exact readsBack_float P S x
  | str s =>
    intro r m _ hm
    obtain ⟨m, rfl⟩ : ∃ k, m = k + 1 := ⟨m - 1, by omega⟩
    rw [dumps, S.text_quoteStr, List.cons_append, parseValue_cons, if_pos rfl, List.append_assoc,
      List.singleton_append, S.scanString_escape]
    rfl
  | list xs ih => exact readsBack_array P S ih rfl (by rw [Value.mapStr, image])
  | tuple xs ih =>
    refine readsBack_array P S ih ?_ (by rw [Value.mapStr, image])
    cases xs <;> rw [dumps, dumps]
  | dict kvs ih => exact readsBack_object P S ih

end spelled

/-! ### Documents -/

theorem loads_text_dumps (S : Spelling) (L : Layout) (v : P.Obj) :
    loads P (S.text (dumps P L v)) = some (image P (v.mapStr S.read)) := by
  have h := readsBack P S L v [] _ numEnd_nil le_rfl
  rw [List.append_nil] at h
  have hskip := S.skipWs_dumps P L v []
  rw [List.append_nil] at hskip
  rw [← hskip] at h
  exact (loads_eq_some P).mpr ⟨_, [], h, rfl⟩

/-- `ensure_ascii=False` -/
def Spelling.unescaped : Spelling where
  char c := [c]
  read s := s
  char_ascii _ _ := rfl
  read_ascii _ _ := rfl
  scanString_escape s r := by
    rw [List.flatMap_singleton']
    exact Py.scanString_escape s r

theorem Value.mapStr_id {F : Type} (v : Value F) : v.mapStr (fun s => s) = v := by
  have hlist : ∀ xs : List (Value F), (∀ x ∈ xs, x.mapStr (fun s => s) = x) →
      mapStrList (fun s => s) xs = xs := by
    intro xs h
    induction xs with
    | nil => rfl
    | cons x xs ih => rw [mapStrList, h x (by simp), ih fun y hy => h y (by simp [hy])]
  induction v using Value.ind with
  | none => rfl
  | bool b => rfl
  | int i => rfl
  | float x => rfl
  | str s => rfl
  | list xs ih => rw [Value.mapStr, hlist xs ih]
  | tuple xs ih => rw [Value.mapStr, hlist xs ih]
  | dict kvs ih =>
    rw [Value.mapStr]
    congr 1
    induction kvs with
    | nil => rfl
    | cons m kvs ih' =>
      obtain ⟨k, v⟩ := m
      have hk : k.mapStr (fun s => s) = k := by cases k <;> rfl
      rw [mapStrMembers, hk, ih (k, v) (by simp), ih' fun y hy => ih y (by simp [hy])]

theorem loads_dumps (L : Layout) (v : P.Obj) : loads P (dumps P L v) = some (image P v) := by
  have h := loads_text_dumps P .unescaped L v
  rw [show Spelling.unescaped.read = fun s => s from rfl, Value.mapStr_id] at h
  rwa [show Spelling.unescaped.text (dumps P L v) = dumps P L v from List.flatMap_singleton' _] at h

/-! ### Plain data -/

theorem imageList_eq_map (xs : List P.Obj) : imageList P xs = xs.map (image P) := by
  induction xs with
  | nil => rfl
  | cons x xs ih => rw [imageList, ih, List.map_cons]

theorem imageMembers_eq_map (ms : Members P.Float) :
    imageMembers P ms = ms.map fun m => (keyName P m.1, image P m.2) := by
  induction ms with
  | nil => rfl
  | cons m ms ih =>
    obtain ⟨k, v⟩ := m
    rw [imageMembers, ih, List.map_cons]

private theorem any_is_iff {F : Type} {kvs : Members F} {k : Str} :
    (kvs.any fun m => m.1.is k) = true ↔ .str k ∈ kvs.map Prod.fst := by
  simp only [List.any_eq_true, Key.is_iff, List.mem_map]

theorem nodup_set {F : Type} {kvs : Members F} (h : (kvs.map Prod.fst).Nodup) (k : Str)
    (v : Value F) : ((set kvs k v).map Prod.fst).Nodup := by
  unfold set
  by_cases hk : (kvs.any fun m => m.1.is k) = true
  · rw [if_pos hk, List.map_map]
    have : (Prod.fst ∘ fun m : Key F × Value F => if m.1.is k then (m.1, v) else m) = Prod.fst := by
      funext m
      simp only [Function.comp_apply]
      split_ifs <;> rfl
    rwa [this]
  · rw [if_neg hk, List.map_append, List.map_singleton]
    rw [any_is_iff] at hk
    exact List.Nodup.append h (List.nodup_singleton _) (by simpa using hk)

private theorem foldl_set (ms : List (Str × P.Obj)) (kvs : Members P.Float)
    (h : (kvs.map Prod.fst ++ ms.map fun m : Str × P.Obj => Key.str m.1).Nodup) :
    ms.foldl (fun kvs m => set kvs m.1 m.2) kvs = kvs ++ ms.map fun m => (.str m.1, m.2) := by
  induction ms generalizing kvs with
  | nil => simp
  | cons m ms ih =>
    have hk : ¬ (kvs.any fun x => x.1.is m.1) = true := by
      rw [any_is_iff]
      intro hmem
      have := List.disjoint_of_nodup_append h hmem
      simp at this
    rw [List.foldl_cons, set, if_neg hk, ih]
    · simp
    · simpa using h

theorem dictOf_eq_map {ms : List (Str × P.Obj)}
    (h : (ms.map fun m : Str × P.Obj => Key.str (F := P.Float) m.1).Nodup) :
    dictOf P ms = ms.map fun m => (.str m.1, m.2) := by
  rw [dictOf, foldl_set P ms [] (by simpa using h), List.nil_append]

theorem image_eq_self {v : P.Obj} (hp : v.Plain) (hw : v.WF) : image P v = v := by
  induction v using Value.ind with
  | none => rfl
  | bool b => rfl
  | int i => rfl
  | float x => rfl
  | str s => rfl
  | list xs ih =>
    rw [Value.Plain, plainList_iff] at hp
    rw [Value.WF, wfList_iff] at hw
    rw [image, imageList_eq_map]
    congr 1
    exact (List.map_congr_left fun x hx => ih x hx (hp x hx) (hw x hx)).trans (List.map_id _)
  | tuple xs ih => exact absurd hp (by rw [Value.Plain]; exact id)
  | dict kvs ih =>
    rw [Value.Plain, plainMembers_iff] at hp
    rw [Value.WF, wfMembers_iff] at hw
    have hkey : ∀ m ∈ kvs, Key.str (keyName P m.1) = m.1 := by
      intro m hm
      obtain ⟨s, hs⟩ := Key.eq_str_of_isString (hp m hm).1
      rw [hs]
      rfl
    have hnodup : ((imageMembers P kvs).map fun m => Key.str (F := P.Float) m.1).Nodup := by
      rw [imageMembers_eq_map, List.map_map]
      have : kvs.map ((fun m => Key.str m.1) ∘ fun m => (keyName P m.1, image P m.2)) =
          kvs.map Prod.fst := List.map_congr_left fun m hm => hkey m hm
      rw [this]
      exact hw.1
    rw [image, dictOf_eq_map P hnodup, imageMembers_eq_map, List.map_map]
    congr 1
    refine (List.map_congr_left fun m hm => ?_).trans (List.map_id _)
    simp only [Function.comp_apply, id_eq, hkey m hm, ih m hm (hp m hm).2 (hw.2 m hm)]

end Py
