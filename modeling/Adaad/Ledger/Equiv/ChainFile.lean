import Adaad.Ledger.ChainFile
import Adaad.Py.Json.Equiv.Suffix

/-!
# What verification accepts

A file passes verification exactly when its entries are a chain (`checkFile_eq_ok_iff`).

The rest is about files in two pieces, which is how a journal is resumed and how it grows:

* a piece whose last line is blank can be read on its own (`entries_append_of_blank`);
* an entry that is appended to a line that is not blank spoils that line
  (`blank_of_entries_append_line`);
* where a file and the end of it are both readable, the beginning is (`exists_entries_left`).
-/

namespace Adaad

open Py

variable (P : Platform)

/-! ### Hashes -/

theorem isAscii_iff {s : Str} : isAscii s = true ↔ ∀ c ∈ s, c < 128 := by
  simp [isAscii]

theorem isAscii_sha256 (b : Bytes) : isAscii (P.sha256 b) = true :=
  isAscii_iff.mpr (ascii_sha256 P b)

theorem isAscii_genesisHash : isAscii genesisHash = true := by decide

theorem isAscii_of_chainHash {L : Layout} {prev h : Str} {e : Members P.Float}
    (he : chainHash P L prev e = .ok h) : isAscii h = true := by
  unfold chainHash at he
  split at he
  · exact nomatch he
  · split at he
    · exact nomatch he
    · obtain rfl := Except.ok.inj he
      exact isAscii_sha256 P _

theorem links_iff {prev : Str} {e : Members P.Float} :
    (entryFormat P).Links prev e ↔
      prevHashOf P e = prev ∧ chainHash P .spaced prev (without e hashKey) = .ok (hashOf P e) := by
  have : ∀ x : Except Exc Str, x.toOption = some (hashOf P e) ↔ x = .ok (hashOf P e) := by
    rintro (_ | _) <;> simp [Except.toOption]
  exact and_congr_right fun _ => this _

/-! ### Verification -/

/-- A reader that tells hashes apart, and finds ASCII text equal to itself. -/
structure Reader.Lawful (C : Reader) : Prop where
  eq_of_compare : ∀ {a b}, C.compare a b = some true → a = b
  compare_self : ∀ {a}, isAscii a = true → C.compare a a = some true

theorem compareText_self (a : Str) : compareText a a = some true := by simp [compareText]

variable {P}
variable {C : Reader}

theorem expect_eq_ok {a b m : Str} {u : Unit} :
    C.expect a b m = .ok u ↔ C.compare a b = some true := by
  unfold Reader.expect
  rcases C.compare a b with _ | _ | _ <;> simp

theorem checkEntry_eq_ok_iff (hC : C.Lawful) {n : Nat} {prev t : Str} {e : Members P.Float}
    (hprev : C.compare prev prev = some true) :
    checkEntry P C n prev e = .ok t ↔ (entryFormat P).Links prev e ∧ t = hashOf P e := by
  unfold checkEntry
  simp only [bind_eq_ok, mapError_eq_ok, expect_eq_ok, links_iff]
  constructor
  · rintro ⟨-, hp, h, hh, -, he, ht⟩
    obtain rfl := hC.eq_of_compare he
    refine ⟨⟨hC.eq_of_compare hp, hh⟩, (Except.ok.inj ht).symm⟩
  · rintro ⟨⟨rfl, hh⟩, rfl⟩
    exact ⟨(), hprev, _, hh, (), hC.compare_self (isAscii_of_chainHash P hh), rfl⟩

theorem compare_tail (hC : C.Lawful) {prev : Str} {es : List (Members P.Float)}
    (hprev : C.compare prev prev = some true) (h : (entryFormat P).Valid prev es) :
    C.compare ((entryFormat P).tail prev es) ((entryFormat P).tail prev es) = some true := by
  induction es generalizing prev with
  | nil => exact hprev
  | cons e es ih =>
    obtain ⟨hlinks, h⟩ := h
    exact ih (hC.compare_self (isAscii_of_chainHash P ((links_iff P).mp hlinks).2)) h

theorem parseEntry_eq_some {t : Str} {e : Members P.Float} :
    parseEntry P t = some e ↔ loads P t = some (.dict e) := by
  unfold parseEntry
  rw [Option.bind_eq_some_iff]
  constructor
  · rintro ⟨v, hv, h⟩
    cases v <;> simp_all [Value.members?]
  · exact fun h => ⟨_, h, rfl⟩

theorem checkLine_eq_ok_iff (hC : C.Lawful) {n : Nat} {prev t line : Str}
    (hprev : C.compare prev prev = some true) :
    checkLine P C n prev line = .ok t ↔
      ∃ es, (nonblank [line]).mapM (parseEntry P) = some es ∧
        (entryFormat P).Valid prev es ∧ (entryFormat P).tail prev es = t := by
  unfold checkLine
  by_cases hb : strip line = []
  · rw [if_pos hb, nonblank_of_blank hb]
    simp
  rw [if_neg hb, nonblank_of_not_blank hb]
  have hmap : ∀ es, [strip line].mapM (parseEntry P) = some es ↔
      ∃ e, loads P (strip line) = some (.dict e) ∧ es = [e] := by
    intro es
    simp only [List.mapM_cons, List.mapM_nil, ← parseEntry_eq_some]
    cases parseEntry P (strip line) <;> simp [eq_comm]
  simp only [hmap]
  constructor
  · intro h
    split at h
    · exact nomatch h
    · next e he =>
      obtain ⟨hlinks, rfl⟩ := (checkEntry_eq_ok_iff hC hprev).mp h
      exact ⟨[e], ⟨e, he, rfl⟩, ⟨hlinks, trivial⟩, rfl⟩
    · exact nomatch h
  · rintro ⟨es, ⟨e, he, rfl⟩, ⟨hlinks, -⟩, rfl⟩
    rw [he]
    exact (checkEntry_eq_ok_iff hC hprev).mpr ⟨hlinks, rfl⟩

theorem mapM_append {α β : Type} {f : α → Option β} {xs ys : List α} {zs : List β} :
    (xs ++ ys).mapM f = some zs ↔
      ∃ as bs, xs.mapM f = some as ∧ ys.mapM f = some bs ∧ zs = as ++ bs := by
  rw [List.mapM_append]
  simp only [Option.bind_eq_bind, Option.bind_eq_some_iff, Option.pure_def, Option.some.injEq]
  constructor
  · rintro ⟨as, has, bs, hbs, rfl⟩
    exact ⟨as, bs, has, hbs, rfl⟩
  · rintro ⟨as, bs, has, hbs, rfl⟩
    exact ⟨as, has, bs, hbs, rfl⟩

theorem checkLines_eq_ok_iff (hC : C.Lawful) {ls : List Str} {n : Nat} {prev t : Str}
    (hprev : C.compare prev prev = some true) :
    checkLines P C n prev ls = .ok t ↔
      ∃ es, (nonblank ls).mapM (parseEntry P) = some es ∧
        (entryFormat P).Valid prev es ∧ (entryFormat P).tail prev es = t := by
  induction ls generalizing n prev with
  | nil => simp [checkLines]
  | cons l ls ih =>
    rw [checkLines, bind_eq_ok, nonblank_cons]
    simp only [mapM_append]
    constructor
    · rintro ⟨h, hl, hls⟩
      obtain ⟨es, hes, hvalid, rfl⟩ := (checkLine_eq_ok_iff hC hprev).mp hl
      obtain ⟨es', hes', hvalid', rfl⟩ := (ih (compare_tail hC hprev hvalid)).mp hls
      exact ⟨es ++ es', ⟨es, es', hes, hes', rfl⟩, (entryFormat P).valid_append.mpr
        ⟨hvalid, hvalid'⟩, (entryFormat P).tail_append _ _ _⟩
    · rintro ⟨_, ⟨es, es', hes, hes', rfl⟩, hvalid, rfl⟩
      rw [(entryFormat P).valid_append] at hvalid
      exact ⟨_, (checkLine_eq_ok_iff hC hprev).mpr ⟨es, hes, hvalid.1, rfl⟩,
        (ih (compare_tail hC hprev hvalid.1)).mpr
          ⟨es', hes', hvalid.2, ((entryFormat P).tail_append _ _ _).symm⟩⟩

theorem checkFile_eq_ok_iff (hC : C.Lawful) {b : Bytes} {prev t : Str}
    (hprev : C.compare prev prev = some true) :
    checkFile P C prev b = .ok t ↔
      ∃ es, entries P b = some es ∧ (entryFormat P).Valid prev es ∧
        (entryFormat P).tail prev es = t := by
  unfold checkFile entries
  rw [bind_eq_ok]
  cases hb : decode b with
  | none =>
    rw [readLines_of_decode_eq_none P hb]
    simp
  | some s =>
    rw [readLines_of_decode P hb]
    simp only [↓reduceIte, checkLines_eq_ok_iff hC hprev, Option.bind_some]
    constructor
    · rintro ⟨h, hes, ht⟩
      obtain rfl := Except.ok.inj ht
      exact hes
    · exact fun hes => ⟨t, hes, rfl⟩

variable (P) in
/-- The file is a chain from genesis, and `h` is the hash of its last entry. -/
def Verified (b : Bytes) (h : Str) : Prop :=
  ∃ es, entries P b = some es ∧ (entryFormat P).Valid genesisHash es ∧
    (entryFormat P).tail genesisHash es = h

theorem Verified.unique {b : Bytes} {h h' : Str} (hv : Verified P b h) (hv' : Verified P b h') :
    h = h' := by
  obtain ⟨es, hes, -, rfl⟩ := hv
  obtain ⟨es', hes', -, rfl⟩ := hv'
  rw [Option.some.inj (hes.symm.trans hes')]

theorem isAscii_tail {h : Str} {es : List (Members P.Float)} (hh : isAscii h = true)
    (hvalid : (entryFormat P).Valid h es) : isAscii ((entryFormat P).tail h es) = true := by
  induction es generalizing h with
  | nil => exact hh
  | cons e es ih =>
    obtain ⟨hlinks, hvalid⟩ := hvalid
    exact ih (isAscii_of_chainHash P ((links_iff P).mp hlinks).2) hvalid

theorem Verified.isAscii {b : Bytes} {h : Str} (hv : Verified P b h) : isAscii h = true := by
  obtain ⟨es, -, hvalid, rfl⟩ := hv
  exact isAscii_tail isAscii_genesisHash hvalid

theorem encodable_of_isAscii {s : Str} (h : isAscii s = true) : Encodable s :=
  encodable_of_ascii (isAscii_iff.mp h)

/-! ### Files in two pieces -/

/-- The file is text whose last line is blank, so that what is appended starts a line. -/
def EndsBlank (b : Bytes) : Prop :=
  ∃ s, decode b = some s ∧ strip (lastLine s) = []

theorem entries_eq_some {b : Bytes} {es : List (Members P.Float)} :
    entries P b = some es ↔ ∃ s, decode b = some s ∧ (records s).mapM (parseEntry P) = some es :=
  Option.bind_eq_some_iff

theorem decode_append_of_decode {a b : Bytes} {s : Str} (h : decode a = some s) :
    decode (a ++ b) = (decode b).map (s ++ ·) :=
  decode_append (encode_of_decode h) b

theorem entries_append_of_blank {a b : Bytes} (ha : EndsBlank a) {es : List (Members P.Float)} :
    entries P (a ++ b) = some es ↔
      ∃ es₁ es₂, entries P a = some es₁ ∧ entries P b = some es₂ ∧ es = es₁ ++ es₂ := by
  obtain ⟨s, hs, hblank⟩ := ha
  simp only [entries_eq_some, decode_append_of_decode hs, hs, Option.some.injEq, exists_eq_left',
    Option.map_eq_some_iff]
  constructor
  · rintro ⟨_, ⟨t, ht, rfl⟩, hes⟩
    rw [records_append_of_blank hblank, mapM_append] at hes
    obtain ⟨es₁, es₂, h₁, h₂, rfl⟩ := hes
    exact ⟨es₁, es₂, h₁, ⟨t, ht, h₂⟩, rfl⟩
  · rintro ⟨es₁, es₂, h₁, ⟨t, ht, h₂⟩, rfl⟩
    refine ⟨_, ⟨t, ht, rfl⟩, ?_⟩
    rw [records_append_of_blank hblank, mapM_append]
    exact ⟨es₁, es₂, h₁, h₂, rfl⟩

theorem isSpace_of_isJsonSpace {c : Nat} (h : isJsonSpace c = true) : isSpace c = true := by
  simp only [isJsonSpace, Bool.or_eq_true, beq_iff_eq] at h
  rcases h with ((rfl | rfl) | rfl) | rfl <;> decide

theorem parseEntry_append_eq_none {p q : Str} (hp : strip p ≠ []) {e : Members P.Float}
    (hq : parseEntry P (strip q) = some e) : parseEntry P (strip (p ++ q)) = none := by
  rw [parseEntry_eq_some] at hq
  have hne : strip q ≠ [] := by
    intro h
    rw [h] at hq
    exact absurd hq (by simp [loads, skipWs, parseValue])
  obtain ⟨x, hx, c, hc, hspace⟩ := exists_strip_append hp hne
  by_contra hsome
  obtain ⟨e', he'⟩ := Option.ne_none_iff_exists'.mp hsome
  rw [parseEntry_eq_some, hx] at he'
  have := isSpace_of_isJsonSpace (Mode.blank_of_loads_append P he' hq c hc)
  rw [hspace] at this
  exact Bool.false_ne_true this

private theorem mapM_singleton {α β : Type} {f : α → Option β} {x : α} {ys : List β} :
    [x].mapM f = some ys ↔ ∃ y, f x = some y ∧ ys = [y] := by
  simp only [List.mapM_cons, List.mapM_nil]
  cases f x <;> simp [eq_comm]

/-- The two pieces of a file do not share a line: the last of the one or the first of the other is
blank. -/
def Separate (a b : Bytes) : Prop :=
  ∃ s t, decode a = some s ∧ decode b = some t ∧
    (strip (lastLine s) = [] ∨ strip (firstLine t) = [])

private theorem nonblank_join {p q : Str} (h : strip p = [] ∨ strip q = []) :
    nonblank [p ++ q] = nonblank [p] ++ nonblank [q] := by
  rcases h with h | h
  · rw [nonblank_of_blank h, List.nil_append, nonblank_singleton, nonblank_singleton,
      strip_append_of_blank h]
  · rw [nonblank_of_blank h, List.append_nil, nonblank_singleton, nonblank_singleton,
      strip_append_blank h]

theorem entries_append_of_separate {a b : Bytes} (h : Separate a b)
    {es₁ es₂ : List (Members P.Float)} (ha : entries P a = some es₁)
    (hb : entries P b = some es₂) : entries P (a ++ b) = some (es₁ ++ es₂) := by
  obtain ⟨s, t, hs, ht, hst⟩ := h
  rw [entries, hs, Option.bind_some] at ha
  rw [entries, ht, Option.bind_some] at hb
  refine entries_eq_some.mpr ⟨s ++ t, by rw [decode_append_of_decode hs, ht]; rfl, ?_⟩
  rw [records_append, nonblank_join hst, List.append_assoc, ← List.append_assoc (nonblank _),
    ← records_eq, ← records_eq_first, mapM_append]
  exact ⟨es₁, es₂, ha, hb, rfl⟩

theorem exists_entries_left {a b : Bytes} {es es₂ : List (Members P.Float)}
    (h : entries P (a ++ b) = some es) (hb : entries P b = some es₂) :
    ∃ es₁, entries P a = some es₁ ∧ es = es₁ ++ es₂ ∧ Separate a b := by
  obtain ⟨s, hs, hes⟩ := entries_eq_some.mp h
  obtain ⟨t, ht, hes₂⟩ := entries_eq_some.mp hb
  obtain ⟨u, hu, rfl⟩ := exists_decode_left hs ht
  rw [records_append, mapM_append] at hes
  rw [records_eq_first, mapM_append] at hes₂
  obtain ⟨rs, _, hrs, hes, rfl⟩ := hes
  obtain ⟨qs, rest, hqs, hrest, rfl⟩ := hes₂
  rw [mapM_append] at hes
  obtain ⟨js, rest', hjs, hrest', rfl⟩ := hes
  obtain rfl := Option.some.inj (hrest.symm.trans hrest')
  -- one of the two parts of the common line is blank
  have hblank : strip (lastLine u) = [] ∨ strip (firstLine t) = [] := by
    by_contra hne
    obtain ⟨hp, hq⟩ := not_or.mp hne
    rw [nonblank_of_not_blank hq, mapM_singleton] at hqs
    obtain ⟨e, he, -⟩ := hqs
    have hne : strip (lastLine u ++ firstLine t) ≠ [] := by
      obtain ⟨x, hx, c, hc, -⟩ := exists_strip_append hp hq
      rw [hx]
      exact List.append_ne_nil_of_left_ne_nil (List.ne_nil_of_mem hc) _
    rw [nonblank_of_not_blank hne, mapM_singleton] at hjs
    obtain ⟨e', he', -⟩ := hjs
    rw [parseEntry_append_eq_none hp he] at he'
    exact nomatch he'
  rw [nonblank_join hblank, mapM_append] at hjs
  obtain ⟨ps, qs', hps, hqs', rfl⟩ := hjs
  obtain rfl := Option.some.inj (hqs.symm.trans hqs')
  refine ⟨rs ++ ps, entries_eq_some.mpr ⟨u, hu, ?_⟩, by simp, u, t, hu, ht, hblank⟩
  rw [records_eq, mapM_append]
  exact ⟨rs, ps, hrs, hps, rfl⟩

/-! ### A line at the end -/

/-- A line that holds an entry. -/
structure IsLine (l : Str) (e : Members P.Float) : Prop where
  not_newline : ∀ c ∈ l, newline c = false
  strip_eq : strip l = l
  loads_eq : loads P l = some (.dict e)

theorem IsLine.ne_nil {l : Str} {e : Members P.Float} (h : IsLine l e) : l ≠ [] := by
  rintro rfl
  exact absurd h.loads_eq (by simp [loads, skipWs, parseValue])

theorem entries_line {l : Str} {b : Bytes} {e : Members P.Float} (h : IsLine l e)
    (hb : encode (l ++ [lf]) = some b) : entries P b = some [e] := by
  refine entries_eq_some.mpr ⟨_, decode_encode hb, ?_⟩
  rw [records_line h.not_newline h.ne_nil h.strip_eq, mapM_singleton]
  exact ⟨e, parseEntry_eq_some.mpr h.loads_eq, rfl⟩

theorem endsBlank_append_line {a b : Bytes} {s l : Str} (ha : decode a = some s)
    (hb : encode (l ++ [lf]) = some b) : EndsBlank (a ++ b) := by
  refine ⟨s ++ l ++ [lf], ?_, ?_⟩
  · rw [decode_append_of_decode ha, decode_encode hb, Option.map_some, List.append_assoc]
  · rw [lastLine_append_lf, strip_nil]

theorem endsBlank_of_entries_append_line {a b : Bytes} {s l : Str} {e : Members P.Float}
    {es : List (Members P.Float)} (ha : decode a = some s) (h : IsLine l e)
    (hb : encode (l ++ [lf]) = some b) (hes : entries P (a ++ b) = some es) : EndsBlank a := by
  refine ⟨s, ha, ?_⟩
  by_contra hp
  obtain ⟨t, ht, hes⟩ := entries_eq_some.mp hes
  rw [decode_append_of_decode ha, decode_encode hb] at ht
  obtain rfl := Option.some.inj ht
  rw [records_append, firstLine_line h.not_newline, mapM_append] at hes
  obtain ⟨-, js, -, hjs, -⟩ := hes
  rw [mapM_append] at hjs
  obtain ⟨ks, -, hks, -, -⟩ := hjs
  have hl : parseEntry P (strip l) = some e := by
    rw [h.strip_eq]
    exact parseEntry_eq_some.mpr h.loads_eq
  have hne : strip (lastLine s ++ l) ≠ [] := by
    obtain ⟨x, hx, c, hc, -⟩ := exists_strip_append hp (by rw [h.strip_eq]; exact h.ne_nil)
    rw [hx]
    exact List.append_ne_nil_of_left_ne_nil (List.ne_nil_of_mem hc) _
  rw [nonblank_of_not_blank hne, mapM_singleton] at hks
  obtain ⟨e', he', -⟩ := hks
  rw [parseEntry_append_eq_none hp hl] at he'
  exact nomatch he'

end Adaad
