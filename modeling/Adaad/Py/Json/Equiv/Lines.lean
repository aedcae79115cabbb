import Adaad.Py.Json.Equiv.Sort

/-!
# Rows that are read back

A file of rows is read back, row by row, exactly when no string in it has a separator
(`readRows_rowsText_eq_ok`).  Otherwise the first line that `splitlines` makes of the first row with
one is a proper prefix of an object, which is no JSON (`loads_eq_none_of_prefix`), and nothing is
read at all (`readRows_rowsText_eq_error`).
-/

namespace Py

variable {P : Platform} {L : Layout}

/-! ### Separators -/

theorem lineBoundary_of_isSeparator {c : Nat} (h : isSeparator c = true) :
    lineBoundary c = true := by
  simp only [isSeparator, Bool.or_eq_true, beq_iff_eq] at h
  rcases h with (rfl | rfl) | rfl <;> decide

theorem isSeparator_of_lineBoundary {c : Nat} (h : lineBoundary c = true) (hc : 32 ≤ c) :
    isSeparator c = true := by
  simp only [lineBoundary, Bool.or_eq_true, Bool.and_eq_true, decide_eq_true_eq, beq_iff_eq] at h
  simp only [isSeparator, Bool.or_eq_true, beq_iff_eq]
  omega

theorem le_of_isSeparator {c : Nat} (h : isSeparator c = true) : 127 ≤ c := by
  simp only [isSeparator, Bool.or_eq_true, beq_iff_eq] at h
  omega

theorem isSeparator_of_lt {c : Nat} (h : c < 128) : isSeparator c = false := by
  simp only [isSeparator, Bool.or_eq_false_iff, beq_eq_false_iff_ne]
  omega

theorem unbroken_str_of_ascii {F : Type} {s : Str} (h : ∀ c ∈ s, c < 128) :
    Unbroken (.str s : Value F) :=
  fun c hc => isSeparator_of_lt (h c hc)

theorem unbroken_str_append {F : Type} {s t : Str} :
    Unbroken (.str (s ++ t) : Value F) ↔
      Unbroken (.str s : Value F) ∧ Unbroken (.str t : Value F) :=
  List.forall_mem_append

theorem unbroken_none {F : Type} : Unbroken (.none : Value F) :=
  fun _ hc => absurd hc List.not_mem_nil

theorem unbroken_bool {F : Type} (b : Bool) : Unbroken (.bool b : Value F) :=
  fun _ hc => absurd hc List.not_mem_nil

theorem unbroken_dict_nil {F : Type} : Unbroken (.dict [] : Value F) :=
  fun _ hc => absurd hc List.not_mem_nil

theorem unbroken_int {F : Type} (i : Int) : Unbroken (.int i : Value F) := nofun

theorem unbroken_dict {F : Type} {ms : Members F} :
    Unbroken (.dict ms) ↔
      ∀ m ∈ ms, (∀ c ∈ m.1.chars, isSeparator c = false) ∧ Unbroken m.2 := by
  simp only [Unbroken, Value.chars, mem_charsMembers]
  constructor
  · exact fun h m hm => ⟨fun c hc => h c ⟨m, hm, .inl hc⟩, fun c hc => h c ⟨m, hm, .inr hc⟩⟩
  · rintro h c ⟨m, hm, hc | hc⟩
    · exact (h m hm).1 c hc
    · exact (h m hm).2 c hc

theorem unbroken_dict_of_names {F : Type} {ms : Members F} (names : List Str)
    (hkeys : ms.map Prod.fst = names.map Key.str) (hascii : ∀ s ∈ names, ∀ c ∈ s, c < 128) :
    Unbroken (.dict ms) ↔ ∀ m ∈ ms, Unbroken m.2 := by
  rw [unbroken_dict]
  refine forall₂_congr fun m hm => and_iff_right fun c hc => ?_
  have hmem : m.1 ∈ names.map Key.str := hkeys ▸ List.mem_map_of_mem hm
  obtain ⟨s, hs, hkey⟩ := List.mem_map.mp hmem
  rw [← hkey] at hc
  exact isSeparator_of_lt (hascii s hs c hc)

theorem lineBoundary_of_mem_dumps {v : P.Obj} (hv : Unbroken v) {c : Nat}
    (hc : c ∈ dumps P L v) : lineBoundary c = false := by
  by_contra hb
  rw [Bool.not_eq_false] at hb
  obtain ⟨hlow, hchar⟩ := mem_dumps P L hc
  have hsep := isSeparator_of_lineBoundary hb hlow
  have hhigh := le_of_isSeparator hsep
  rw [hv c (hchar.resolve_left (by omega))] at hsep
  exact nomatch hsep

theorem lf_notMem_dumps {v : P.Obj} {b : Bytes} (h : encode (dumps P L v) = some b) :
    (10 : UInt8) ∉ b :=
  notMem_of_encode h (by decide) fun hmem => by
    have := (mem_dumps P L hmem).1
    exact absurd this (by decide)

variable (P L) in
theorem exists_separator {v : P.Obj} (hv : ¬ Unbroken v) :
    ∃ p c q, dumps P L v = p ++ c :: q ∧ lineBoundary c = true ∧
      ∀ x ∈ p, lineBoundary x = false := by
  unfold Unbroken at hv
  push Not at hv
  obtain ⟨c, hc, hsep⟩ := hv
  rw [ne_eq, Bool.not_eq_false] at hsep
  have hmem : c ∈ dumps P L v := mem_dumps_of_mem_chars P L hc (le_of_isSeparator hsep)
  have hany : (dumps P L v).any lineBoundary = true :=
    List.any_eq_true.mpr ⟨c, hmem, lineBoundary_of_isSeparator hsep⟩
  -- the first of them
  obtain ⟨x, hx⟩ : ∃ x, (dumps P L v).find? lineBoundary = some x := by
    rw [← Option.isSome_iff_exists, List.find?_isSome]
    exact ⟨c, hmem, lineBoundary_of_isSeparator hsep⟩
  obtain ⟨hb, p, q, hpq, hp⟩ := List.find?_eq_some_iff_append.mp hx
  exact ⟨p, x, q, hpq, hb, fun y hy => by simpa using hp y hy⟩

/-! ### Prefixes of an object -/

private theorem isNumber_of_loads_brace {s : Str} {v : P.Obj} (h : loads P (123 :: s) = some v) :
    v.isNumber = false := by
  have hskip : skipWs (123 :: s) = 123 :: s := by simp [skipWs, isJsonSpace]
  rw [loads, hskip, show 2 * (123 :: s).length + 2 = 2 * (123 :: s).length + 1 + 1 from rfl,
    parseValue, if_neg (by decide), if_pos rfl] at h
  obtain ⟨⟨w, r⟩, hp, h⟩ := Option.bind_eq_some_iff.mp h
  obtain ⟨-, hv⟩ := Option.ite_none_right_eq_some.mp h
  obtain rfl := Option.some.inj hv
  split_ifs at hp
  · obtain ⟨rfl, -⟩ := Prod.mk.inj (Option.some.inj hp)
    rfl
  · obtain ⟨ms, -, hms⟩ := Option.map_eq_some_iff.mp hp
    obtain ⟨rfl, -⟩ := Prod.mk.inj hms
    rfl

theorem loads_eq_none_of_prefix {e : Members P.Float} {p q : Str}
    (h : dumps P L (.dict e) = p ++ q) (hq : q ≠ []) : loads P p = none := by
  obtain ⟨t, ht⟩ := exists_dumps_dict (P := P) L e
  rw [ht] at h
  cases p with
  | nil => simp [loads, skipWs, parseValue]
  | cons c p =>
    obtain ⟨rfl, -⟩ := List.cons.inj h
    by_contra hsome
    obtain ⟨v, hv⟩ := Option.ne_none_iff_exists'.mp hsome
    -- what follows ends in a brace, so it is not blank
    obtain ⟨q, x, rfl⟩ := (List.eq_nil_or_concat q).resolve_left hq
    have hlast : x = 125 := by
      rw [List.concat_eq_append, ← List.append_assoc, ← List.cons_append] at h
      exact (List.cons.inj (List.append_inj' h rfl).2).1.symm
    have hskip : skipWs (q.concat x) ≠ [] := by
      intro hnil
      have := (List.dropWhile_eq_nil_iff.mp hnil) x (by simp)
      rw [hlast] at this
      exact absurd this (by decide)
    have hnone := loads_append_eq_none P hv (isNumber_of_loads_brace hv) hskip
    rw [← h, ← ht, loads_dumps] at hnone
    cases hnone

/-! ### Reading the rows -/

/-- The two ways in which a store takes the line that it reads. -/
def Cleaning (clean : Str → Str) : Prop :=
  ∀ s, clean s = s ∨ clean s = strip s

theorem cleaning_id : Cleaning id := fun _ => .inl rfl

theorem cleaning_strip : Cleaning strip := fun _ => .inr rfl

theorem filledLines_append_lf (l t : Str) :
    filledLines (l ++ lf :: t) = filledLines (l ++ [lf]) ++ filledLines t := by
  unfold filledLines splitlines
  rw [splitLines_append_lf (by decide), List.filter_append]

theorem strip_dumps_ne_nil {e : Members P.Float} : strip (dumps P L (.dict e)) ≠ [] := by
  obtain ⟨t, ht⟩ := exists_dumps_dict (P := P) L e
  rw [strip_dumps_dict, ht]
  exact List.cons_ne_nil _ _

theorem filledLines_line {e : Members P.Float} (he : Unbroken (.dict e : P.Obj)) :
    filledLines (dumps P L (.dict e) ++ [lf]) = [dumps P L (.dict e)] := by
  have hne : dumps P L (.dict e) ≠ [] := by
    intro h
    have := strip_dumps_ne_nil (P := P) (L := L) (e := e)
    rw [h] at this
    exact this rfl
  have hline : ∀ l ∈ [dumps P L (.dict e)], l ≠ [] ∧ ∀ c ∈ l, lineBoundary c = false := by
    simpa using ⟨hne, fun c hc => lineBoundary_of_mem_dumps he hc⟩
  have hsplit := splitLines_flatMap (by decide) hline
  simp only [List.flatMap_cons, List.flatMap_nil, List.append_nil] at hsplit
  unfold filledLines splitlines
  rw [hsplit, List.filter_singleton]
  simp [strip_dumps_ne_nil]

theorem loads_firstLine_eq_none {clean : Str → Str} (hclean : Cleaning clean)
    {e : Members P.Float} (he : ¬ Unbroken (.dict e : P.Obj)) (t : Str) :
    ∃ p ls, filledLines (dumps P L (.dict e) ++ t) = p :: ls ∧ loads P (clean p) = none := by
  obtain ⟨p, c, q, hpq, hc, hp⟩ := exists_separator P L he
  obtain ⟨u, hu⟩ := exists_dumps_dict (P := P) L e
  obtain ⟨ls, hls⟩ := exists_splitLines_cons (by decide) hp hc (q ++ t)
  have hbrace : ∃ r, p = 123 :: r := by
    cases p with
    | nil =>
      rw [hu] at hpq
      obtain ⟨rfl, -⟩ := List.cons.inj hpq
      exact absurd hc (by decide)
    | cons x p =>
      rw [hu] at hpq
      obtain ⟨rfl, -⟩ := List.cons.inj hpq
      exact ⟨p, rfl⟩
  obtain ⟨r, rfl⟩ := hbrace
  have hstrip : strip (123 :: r) = (123 :: r).rdropWhile isSpace := by
    unfold strip stripBy
    rw [List.dropWhile_cons_of_neg (by decide)]
  have hne : strip (123 :: r) ≠ [] := fun h => by
    have := strip_eq_nil_iff.mp h 123 (by simp)
    exact absurd this (by decide)
  refine ⟨123 :: r, ls.filter fun line => strip line ≠ [], ?_, ?_⟩
  · unfold filledLines splitlines
    rw [hpq, List.append_assoc, show c :: q ++ t = c :: (q ++ t) from rfl, hls]
    exact List.filter_cons_of_pos (by simpa using hne)
  · rcases hclean (123 :: r) with h | h
    · rw [h]
      exact loads_eq_none_of_prefix hpq (List.cons_ne_nil _ _)
    · -- the blanks at the end of the line are left out as well
      obtain ⟨w, hw⟩ := List.rdropWhile_prefix isSpace (123 :: r)
      rw [h, hstrip]
      have hsplit : dumps P L (.dict e) = (123 :: r).rdropWhile isSpace ++ (w ++ c :: q) := by
        rw [← List.append_assoc, hw]
        exact hpq
      exact loads_eq_none_of_prefix hsplit (by simp)

theorem rowsText_cons (row : Members P.Float) (rows : List (Members P.Float)) :
    rowsText P L (row :: rows) = dumps P L (.dict row) ++ lf :: rowsText P L rows := by
  simp [rowsText]

theorem rowsText_append (rows rows' : List (Members P.Float)) :
    rowsText P L (rows ++ rows') = rowsText P L rows ++ rowsText P L rows' :=
  List.flatMap_append

theorem mapM_filledLines_eq_some {clean : Str → Str} (hclean : Cleaning clean)
    {rows : List (Members P.Float)} {vs : List P.Obj} :
    ((filledLines (rowsText P L rows)).mapM fun line => loads P (clean line)) = some vs ↔
      (∀ row ∈ rows, Unbroken (.dict row : P.Obj)) ∧
        vs = rows.map fun row => image P (.dict row) := by
  induction rows generalizing vs with
  | nil =>
    show some [] = some vs ↔ _
    rw [Option.some.injEq, eq_comm]
    simp
  | cons row rows ih =>
    rw [rowsText_cons, List.forall_mem_cons]
    by_cases hrow : Unbroken (.dict row : P.Obj)
    · have hline : loads P (clean (dumps P L (.dict row))) = some (image P (.dict row)) := by
        rcases hclean (dumps P L (.dict row)) with h | h
        · rw [h, loads_dumps]
        · rw [h, strip_dumps_dict, loads_dumps]
      rw [filledLines_append_lf, filledLines_line hrow, List.singleton_append, List.mapM_cons,
        hline]
      simp only [Option.bind_eq_bind, Option.bind_some, Option.bind_eq_some_iff, Option.pure_def,
        Option.some.injEq, ih, List.map_cons]
      constructor
      · rintro ⟨ws, ⟨hrows, rfl⟩, rfl⟩
        exact ⟨⟨hrow, hrows⟩, rfl⟩
      · rintro ⟨⟨-, hrows⟩, rfl⟩
        exact ⟨_, ⟨hrows, rfl⟩, rfl⟩
    · obtain ⟨p, ls, hls, hnone⟩ := loads_firstLine_eq_none (L := L) hclean hrow
        (lf :: rowsText P L rows)
      rw [hls, List.mapM_cons, hnone]
      exact iff_of_false nofun fun h => hrow h.1.1

theorem readText_rowsText {rows : List (Members P.Float)} {file : Bytes}
    (hfile : encode (rowsText P L rows) = some file) :
    readText file = .ok (rowsText P L rows) := by
  refine readText_of_encode hfile fun c hc => ?_
  obtain ⟨row, -, hc⟩ := List.mem_flatMap.mp hc
  rcases List.mem_append.mp hc with hc | hc
  · intro h
    have := (mem_dumps P L hc).1
    simp only [cr] at h
    omega
  · rw [List.mem_singleton.mp hc]
    exact lf_ne_cr

theorem readRows_rowsText_eq_ok {clean : Str → Str} (hclean : Cleaning clean)
    {rows : List (Members P.Float)} {file : Bytes} {vs : List P.Obj}
    (hfile : encode (rowsText P L rows) = some file) :
    readRows P clean file = .ok vs ↔
      (∀ row ∈ rows, Unbroken (.dict row : P.Obj)) ∧
        vs = rows.map fun row => image P (.dict row) := by
  unfold readRows
  rw [readText_rowsText hfile, ← mapM_filledLines_eq_some (L := L) hclean]
  simp only
  cases (filledLines (rowsText P L rows)).mapM fun line => loads P (clean line) <;> simp

end Py
