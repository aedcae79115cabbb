import Adaad.Py.Json.Equiv.Flat
import Adaad.Py.Json.Equiv.Lines

/-!
# Files of ASCII rows

A store that appends `json.dumps(row, sort_keys=True)` line by line has rows whose own keys it
names, over values of any kind.  Each line is read back as a mapping that has, under each key, the
image of the sorted value (`loads_of_dumpsSortedAscii`), and the file is read back line by line
(`filledLines_asciiLines`).
-/

namespace Py

section strings

variable {F : Type}

/-! ### Strings that stay -/

theorem mapStr_list_eq_self_iff {f : Str → Str} {xs : List (Value F)} :
    (Value.list xs).mapStr f = .list xs ↔ ∀ x ∈ xs, x.mapStr f = x := by
  rw [Value.mapStr, Value.list.injEq, mapStrList_eq_map]
  conv_lhs => rhs; rw [← List.map_id xs]
  exact List.map_inj_left

theorem mapStr_tuple_eq_self_iff {f : Str → Str} {xs : List (Value F)} :
    (Value.tuple xs).mapStr f = .tuple xs ↔ ∀ x ∈ xs, x.mapStr f = x := by
  rw [Value.mapStr, Value.tuple.injEq, ← mapStr_list_eq_self_iff, Value.mapStr, Value.list.injEq]

theorem mapStr_dict_eq_self_iff {f : Str → Str} {ms : Members F} :
    (Value.dict ms).mapStr f = .dict ms ↔
      ∀ m ∈ ms, m.1.mapStr f = m.1 ∧ m.2.mapStr f = m.2 := by
  have hmap : (ms.map fun m => (m.1.mapStr f, m.2.mapStr f)) = ms ↔
      ∀ m ∈ ms, (m.1.mapStr f, m.2.mapStr f) = m := by
    conv_lhs => rhs; rw [← List.map_id ms]
    exact List.map_inj_left
  rw [Value.mapStr, Value.dict.injEq, mapStrMembers_eq_map, hmap]
  exact forall₂_congr fun m _ => Prod.mk_inj

end strings

variable (P : Platform)

theorem mapStr_eq_self_of_sortKeys {f : Str → Str} {v w : P.Obj} (h : sortKeys P v = some w)
    (hv : v.mapStr f = v) : w.mapStr f = w := by
  induction v using Value.ind generalizing w with
  | none | bool | int | float | str =>
    obtain rfl := Option.some.inj h
    exact hv
  | list xs ih =>
    rw [sortKeys] at h
    obtain ⟨ys, hys, rfl⟩ := Option.map_eq_some_iff.mp h
    rw [mapStr_list_eq_self_iff] at hv ⊢
    intro y hy
    obtain ⟨x, hx, hxy⟩ := forall₂_mem ((sortKeysList_eq_some P).mp hys) hy
    exact ih x hx hxy (hv x hx)
  | tuple xs ih =>
    rw [sortKeys] at h
    obtain ⟨ys, hys, rfl⟩ := Option.map_eq_some_iff.mp h
    rw [mapStr_tuple_eq_self_iff] at hv ⊢
    intro y hy
    obtain ⟨x, hx, hxy⟩ := forall₂_mem ((sortKeysList_eq_some P).mp hys) hy
    exact ih x hx hxy (hv x hx)
  | dict kvs ih =>
    obtain ⟨ms, hms, -, rfl⟩ := (sortKeys_dict_eq_some P).mp h
    rw [mapStr_dict_eq_self_iff] at hv ⊢
    intro n hn
    obtain ⟨m, hm, hkey, hmn⟩ := forall₂_mem ((sortKeysMembers_eq_some P).mp hms)
      ((perm_sortMembers P ms).mem_iff.mp hn)
    exact ⟨hkey ▸ (hv m hm).1, ih m hm hmn (hv m hm).2⟩

theorem get_imageItems (ms : Members P.Float) (k : Str) :
    get (imageItems P ms) k = (get ms k).map (image P) := by
  unfold get imageItems
  rw [List.find?_map, Option.map_map, Option.map_map]
  rfl

theorem map_fst_eq_of_sortKeysMembers {ms ns : Members P.Float}
    (h : sortKeysMembers P ms = some ns) : ns.map Prod.fst = ms.map Prod.fst := by
  have hall := (sortKeysMembers_eq_some P).mp h
  clear h
  induction hall with
  | nil => rfl
  | cons hmn _ ih => rw [List.map_cons, List.map_cons, hmn.1, ih]

/-- What a value is after it is written with sorted keys and read: `none` where it cannot be
written. -/
def reread (v : P.Obj) : Option P.Obj :=
  (sortKeys P v).map fun w => image P (w.mapStr readAscii)

theorem exists_sortKeys_dict {ms : Members P.Float} (hkeys : ∀ m ∈ ms, m.1.isString = true)
    (hvalues : ∀ m ∈ ms, ∃ w, sortKeys P m.2 = some w) :
    ∃ w, sortKeys P (.dict ms) = some w := by
  have hex : ∀ m ∈ ms, ∃ n : Key P.Float × P.Obj, m.1 = n.1 ∧ sortKeys P m.2 = some n.2 := by
    intro m hm
    obtain ⟨w, hw⟩ := hvalues m hm
    exact ⟨(m.1, w), rfl, hw⟩
  obtain ⟨ns, hns⟩ := exists_forall₂ hex
  refine ⟨_, (sortKeys_dict_eq_some P).mpr ⟨ns, (sortKeysMembers_eq_some P).mpr hns, ?_, rfl⟩⟩
  refine comparable_of_isString P (List.forall_mem_map.mpr fun n hn => ?_)
  obtain ⟨m, hm, hkey, -⟩ := forall₂_mem hns hn
  exact hkey ▸ hkeys m hm

theorem reread_eq_sortKeys {v w : P.Obj} (h : sortKeys P v = some w) (hp : v.Plain) (hw : v.WF)
    (hv : v.mapStr readAscii = v) : reread P v = some w := by
  unfold reread
  rw [h, Option.map_some, mapStr_eq_self_of_sortKeys P h hv,
    image_eq_self P ((plain_sortKeys_iff P h).mpr hp) (wf_sortKeys P h hw)]

theorem loads_of_dumpsSortedAscii {L : Layout} {row : Members P.Float} (hrow : NamedItems row)
    {t : Str} (h : dumpsSortedAscii P L (.dict row) = some t) :
    ∃ e : Members P.Float, loads P t = some (.dict e) ∧
      ∀ k, get e k = (get row k).bind (reread P) := by
  obtain ⟨s, hs, rfl⟩ := Option.map_eq_some_iff.mp h
  obtain ⟨w, hw, rfl⟩ := Option.map_eq_some_iff.mp hs
  obtain ⟨ns, hns, -, rfl⟩ := (sortKeys_dict_eq_some P).mp hw
  have hkeys : ((sortMembers P ns).map Prod.fst).Perm (row.map Prod.fst) := by
    rw [← map_fst_eq_of_sortKeysMembers P hns]
    exact (perm_sortMembers P ns).map Prod.fst
  have hnamed := hrow.of_keys hkeys
  have hread : NamedItems (readItems (sortMembers P ns)) := by
    refine hnamed.of_keys ?_
    rw [map_fst_readItems]
  refine ⟨imageItems P (readItems (sortMembers P ns)), ?_, fun k => ?_⟩
  · have hloads := loads_dumpsAscii P L (.dict (sortMembers P ns))
    rw [Value.mapStr, hnamed.mapStr_eq,
      image_dict_of_isString P (fun m hm => hread.isString hm) hread.nodup] at hloads
    exact hloads
  · rw [get_imageItems, get_readItems, get_sortKeys hw hrow.nodup, Option.map_map]
    cases get row k with
    | none => rfl
    | some v => rfl

theorem loads_dumpsAscii_of_named {L : Layout} {row : Members P.Float} (hrow : NamedItems row) :
    loads P (dumpsAscii P L (.dict row)) = some (.dict (imageItems P (readItems row))) := by
  have hread : NamedItems (readItems row) := hrow.of_keys (by rw [map_fst_readItems])
  rw [loads_dumpsAscii, Value.mapStr, hrow.mapStr_eq,
    image_dict_of_isString P (fun m hm => hread.isString hm) hread.nodup]

theorem get_of_named {row : Members P.Float} (hrow : NamedItems row) {k : Str} {v : P.Obj}
    (hm : (.str k, v) ∈ row) :
    get (imageItems P (readItems row)) k = some (image P (v.mapStr readAscii)) := by
  rw [get_imageItems, get_readItems, get_eq_some_of_mem hrow.nodup hm]
  rfl

theorem exists_dumpsAscii_of_sorted {L : Layout} {row : Members P.Float} {t : Str}
    (h : dumpsSortedAscii P L (.dict row) = some t) :
    ∃ ms : Members P.Float, t = dumpsAscii P L (.dict ms) := by
  obtain ⟨s, hs, rfl⟩ := Option.map_eq_some_iff.mp h
  obtain ⟨w, hw, rfl⟩ := Option.map_eq_some_iff.mp hs
  obtain ⟨ns, -, -, rfl⟩ := (sortKeys_dict_eq_some P).mp hw
  exact ⟨sortMembers P ns, rfl⟩

/-! ### A file -/

/-- A line that is the ASCII document of a mapping. -/
def AsciiRow (L : Layout) (l : Str) : Prop :=
  ∃ ms : Members P.Float, l = dumpsAscii P L (.dict ms)

variable {P} {L : Layout}

theorem AsciiRow.strip_ne_nil {l : Str} (h : AsciiRow P L l) : strip l ≠ [] := by
  obtain ⟨ms, rfl⟩ := h
  rw [strip_dumpsAscii_dict]
  obtain ⟨t, ht⟩ := exists_dumps_dict (P := P) L ms
  rw [dumpsAscii, ht]
  exact List.cons_ne_nil _ _

theorem AsciiRow.printable {l : Str} (h : AsciiRow P L l) : ∀ c ∈ l, Printable c := by
  obtain ⟨ms, rfl⟩ := h
  exact fun c hc => printable_of_mem_dumpsAscii P hc

theorem splitlines_asciiLines {ls : List Str} (h : ∀ l ∈ ls, AsciiRow P L l) :
    splitlines (ls.flatMap (· ++ [lf])) = ls := by
  refine splitLines_flatMap (by decide) fun l hl => ⟨?_, fun c hc => ?_⟩
  · intro hnil
    refine (h l hl).strip_ne_nil ?_
    rw [hnil]
    rfl
  · obtain ⟨hle, hlt⟩ := (h l hl).printable c hc
    cases hb : lineBoundary c with
    | false => rfl
    | true =>
      have := le_of_isSeparator (isSeparator_of_lineBoundary hb hle)
      omega

theorem filledLines_asciiLines {ls : List Str} (h : ∀ l ∈ ls, AsciiRow P L l) :
    filledLines (ls.flatMap (· ++ [lf])) = ls := by
  unfold filledLines
  rw [splitlines_asciiLines h, List.filter_eq_self]
  exact fun l hl => decide_eq_true (h l hl).strip_ne_nil

theorem readText_asciiLines {ls : List Str} (h : ∀ l ∈ ls, AsciiRow P L l) {file : Bytes}
    (hfile : encode (ls.flatMap (· ++ [lf])) = some file) :
    readText file = .ok (ls.flatMap (· ++ [lf])) := by
  refine readText_of_encode hfile fun c hc hcr => ?_
  obtain ⟨l, hl, hc⟩ := List.mem_flatMap.mp hc
  rcases List.mem_append.mp hc with hc | hc
  · have := ((h l hl).printable c hc).1
    rw [hcr] at this
    exact absurd this (by decide)
  · rw [List.mem_singleton.mp hc] at hcr
    exact lf_ne_cr hcr

theorem AsciiRow.exists_encode {l : Str} (h : AsciiRow P L l) :
    ∃ b, encode (l ++ [lf]) = some b := by
  rw [exists_encode_iff]
  refine encodable_of_ascii fun c hc => ?_
  rcases List.mem_append.mp hc with hc | hc
  · have := (h.printable c hc).2
    omega
  · rw [List.mem_singleton.mp hc]
    decide

variable (P) in
def WrittenRows (rows : List (Members P.Float)) (file : Bytes) : Prop :=
  ∃ ls : List Str, List.Forall₂ (fun row l => dumpsSortedAscii P .spaced (.dict row) = some l) rows ls ∧
    encode (ls.flatMap (· ++ [lf])) = some file

theorem writtenRows_nil : WrittenRows P [] [] :=
  ⟨[], .nil, rfl⟩

theorem appendSorted_eq_ok {file file' : Bytes} {v : P.Obj} (h : appendSorted P file v = .ok file') :
    ∃ t b, dumpsSortedAscii P .spaced v = some t ∧ encode (t ++ [lf]) = some b ∧
      file' = file ++ b := by
  unfold appendSorted at h
  cases hdumps : dumpsSortedAscii P .spaced v with
  | none =>
    rw [hdumps] at h
    cases h
  | some t =>
    rw [hdumps] at h
    dsimp only at h
    cases hb : encode (t ++ [lf]) with
    | none =>
      rw [hb] at h
      cases h
    | some b =>
      rw [hb] at h
      exact ⟨t, b, rfl, hb, (Except.ok.inj h).symm⟩

/-- The text is empty, or its last line is complete. -/
def CompleteLines (text : Str) : Prop :=
  text = [] ∨ ∃ t, text = t ++ [lf]

theorem readText_append_row {file b : Bytes} {text l : Str} (hfile : readText file = .ok text)
    (htext : CompleteLines text) (hl : AsciiRow P L l) (hb : encode (l ++ [lf]) = some b) :
    ∃ text', readText (file ++ b) = .ok text' ∧ CompleteLines text' ∧
      filledLines text' = filledLines text ++ [l] := by
  have hline : filledLines (l ++ [lf]) = [l] := by
    have := filledLines_asciiLines (P := P) (L := L) (List.forall_mem_singleton.mpr hl)
    rwa [List.flatMap_singleton] at this
  have hkeep : universalNewlines (l ++ [lf]) = l ++ [lf] := by
    refine universalNewlines_eq_self fun c hc hcr => ?_
    rcases List.mem_append.mp hc with hc | hc
    · have := (hl.printable c hc).1
      rw [hcr] at this
      exact absurd this (by decide)
    · rw [List.mem_singleton.mp hc] at hcr
      exact lf_ne_cr hcr
  have hhead : (l ++ [lf]).head? ≠ some lf := by
    obtain ⟨ms, rfl⟩ := hl
    obtain ⟨t, ht⟩ := exists_dumps_dict (P := P) L ms
    rw [dumpsAscii, ht]
    intro h
    exact absurd (Option.some.inj h) (by decide)
  unfold readText at hfile
  cases hdecode : decode file with
  | none =>
    rw [hdecode] at hfile
    cases hfile
  | some s =>
    rw [hdecode] at hfile
    obtain rfl := Except.ok.inj hfile
    have happend : decode (file ++ b) = some (s ++ (l ++ [lf])) :=
      decode_eq_some_iff.mpr
        (encode_append_eq_some.mpr ⟨file, b, encode_of_decode hdecode, hb, rfl⟩)
    refine ⟨universalNewlines s ++ (l ++ [lf]), ?_, ?_, ?_⟩
    · unfold readText
      rw [happend]
      exact congrArg Except.ok ((universalNewlines_append hhead).trans (by rw [hkeep]))
    · exact .inr ⟨universalNewlines s ++ l, (List.append_assoc _ _ _).symm⟩
    · rcases htext with hnil | ⟨t, ht⟩
      · rw [hnil]
        exact hline
      · rw [ht, List.append_assoc, List.singleton_append, filledLines_append_lf, hline]

theorem exists_appendSorted {row : Members P.Float} {w : P.Obj}
    (h : sortKeys P (.dict row) = some w) (file : Bytes) :
    ∃ file', appendSorted P file (.dict row) = .ok file' := by
  have hdumps : dumpsSortedAscii P .spaced (.dict row) = some (asciiText (dumps P .spaced w)) := by
    unfold dumpsSortedAscii dumpsSorted
    rw [h]
    rfl
  obtain ⟨b, hb⟩ := AsciiRow.exists_encode (exists_dumpsAscii_of_sorted P hdumps)
  refine ⟨file ++ b, ?_⟩
  unfold appendSorted
  rw [hdumps]
  dsimp only
  rw [hb]

theorem sortKeys_of_appendSorted {file file' : Bytes} {v : P.Obj}
    (h : appendSorted P file v = .ok file') : ∃ w, sortKeys P v = some w := by
  obtain ⟨t, -, ht, -, -⟩ := appendSorted_eq_ok h
  obtain ⟨s, hs, -⟩ := Option.map_eq_some_iff.mp ht
  obtain ⟨w, hw, -⟩ := Option.map_eq_some_iff.mp hs
  exact ⟨w, hw⟩

theorem WrittenRows.append {rows : List (Members P.Float)} {row : Members P.Float}
    {file file' : Bytes} (h : WrittenRows P rows file)
    (happend : appendSorted P file (.dict row) = .ok file') : WrittenRows P (rows ++ [row]) file' := by
  obtain ⟨ls, hls, hencode⟩ := h
  obtain ⟨t, b, ht, hb, rfl⟩ := appendSorted_eq_ok happend
  refine ⟨ls ++ [t], List.rel_append hls (.cons ht .nil), ?_⟩
  rw [List.flatMap_append, List.flatMap_singleton]
  exact encode_append_eq_some.mpr ⟨file, b, hencode, hb, rfl⟩

theorem exists_looseRows_of_append {file file' : Bytes} {v : P.Obj} {rows : List P.Obj}
    (hrows : looseRows P file = .ok rows) (h : appendSorted P file v = .ok file') :
    ∃ rows', looseRows P file' = .ok rows' := by
  obtain ⟨t, b, -, hb, rfl⟩ := appendSorted_eq_ok h
  unfold looseRows readText at hrows
  cases hdecode : decode file with
  | none =>
    rw [hdecode] at hrows
    cases hrows
  | some s =>
    have happend : decode (file ++ b) = some (s ++ (t ++ [lf])) :=
      decode_eq_some_iff.mpr
        (encode_append_eq_some.mpr ⟨file, b, encode_of_decode hdecode, hb, rfl⟩)
    refine ⟨(filledLines (universalNewlines (s ++ (t ++ [lf])))).filterMap (loads P), ?_⟩
    unfold looseRows readText
    rw [happend]

theorem looseRows_of_written {rows : List (Members P.Float)} (hrows : ∀ row ∈ rows, NamedItems row)
    {file : Bytes} (h : WrittenRows P rows file) :
    ∃ es : List (Members P.Float),
      List.Forall₂ (fun row e => ∀ k, get e k = (get row k).bind (reread P)) rows es ∧
        looseRows P file = .ok (es.map Value.dict) := by
  obtain ⟨ls, hls, hencode⟩ := h
  have hascii : ∀ l ∈ ls, AsciiRow P .spaced l := fun l hl => by
    obtain ⟨row, -, hrow⟩ := forall₂_mem hls hl
    exact exists_dumpsAscii_of_sorted P hrow
  have hread : ∃ es : List (Members P.Float),
      List.Forall₂ (fun row e => ∀ k, get e k = (get row k).bind (reread P)) rows es ∧
        ls.filterMap (loads P) = es.map Value.dict := by
    clear hencode hascii
    induction hls with
    | nil => exact ⟨[], .nil, rfl⟩
    | @cons row l rows ls hrow _ ih =>
      obtain ⟨hnamed, hrest⟩ := List.forall_mem_cons.mp hrows
      obtain ⟨e, hloads, hget⟩ := loads_of_dumpsSortedAscii P hnamed hrow
      obtain ⟨es, hes, heq⟩ := ih hrest
      exact ⟨e :: es, .cons hget hes, by
        rw [List.filterMap_cons_some hloads, heq, List.map_cons]⟩
  obtain ⟨es, hes, heq⟩ := hread
  refine ⟨es, hes, ?_⟩
  unfold looseRows
  rw [readText_asciiLines hascii hencode]
  dsimp only
  rw [filledLines_asciiLines hascii, heq]

end Py

/-!
## Sorted documents of mappings

A store that writes `json.dumps(row, sort_keys=True)`, as a file or as a line of a log: when the
document can be written (`sortable_dict_iff`), and what it is read as (`reread_dict`,
`exists_readText_append`).
-/

namespace Py

variable {P : Platform}

/-! ### What can be sorted -/

variable (P) in
/-- `json.dumps(value, sort_keys=True)` raises nothing. -/
def Sortable (v : P.Obj) : Prop :=
  ∃ w, sortKeys P v = some w

theorem Value.Flat.sortable {v : P.Obj} (h : v.Flat) : Sortable P v :=
  ⟨v, h.sortKeys P⟩

theorem sortable_list_iff {xs : List P.Obj} : Sortable P (.list xs) ↔ ∀ x ∈ xs, Sortable P x := by
  unfold Sortable
  constructor
  · rintro ⟨w, hw⟩ x hx
    rw [sortKeys] at hw
    obtain ⟨ys, hys, -⟩ := Option.map_eq_some_iff.mp hw
    obtain ⟨y, -, hxy⟩ := forall₂_mem (((sortKeysList_eq_some P).mp hys).flip) hx
    exact ⟨y, hxy⟩
  · intro h
    obtain ⟨ys, hys⟩ := exists_forall₂ h
    refine ⟨.list ys, ?_⟩
    rw [sortKeys, (sortKeysList_eq_some P).mpr hys]
    rfl

theorem sortable_dict_iff {ms : Members P.Float} (hkeys : ∀ m ∈ ms, m.1.isString = true) :
    Sortable P (.dict ms) ↔ ∀ m ∈ ms, Sortable P m.2 := by
  constructor
  · rintro ⟨w, hw⟩ m hm
    obtain ⟨ns, hns, -, -⟩ := (sortKeys_dict_eq_some P).mp hw
    obtain ⟨n, -, -, hsort⟩ := forall₂_mem (((sortKeysMembers_eq_some P).mp hns).flip) hm
    exact ⟨n.2, hsort⟩
  · exact fun h => exists_sortKeys_dict P hkeys h

theorem FlatDict.sortable {ms : Members P.Float} (h : FlatDict ms) : Sortable P (.dict ms) :=
  ⟨_, h.sortKeys P⟩

/-! ### What is read -/

theorem reread_of_flat {v : P.Obj} (hflat : v.Flat) (hread : v.mapStr readAscii = v) :
    reread P v = some v :=
  reread_eq_sortKeys P (hflat.sortKeys P) hflat.plain hflat.wf hread

theorem reread_int (i : Int) : reread P (.int i) = some (.int i) := rfl

theorem reread_str {s : Str} (h : Encodable s) : reread P (.str s) = some (.str s) :=
  reread_of_flat trivial (congrArg Value.str (readAscii_eq_self h))

theorem reread_list {xs : List P.Obj} (h : Sortable P (.list xs)) :
    ∃ ys : List P.Obj, reread P (.list xs) = some (.list ys) ∧ ∀ y ∈ ys, y.Plain := by
  obtain ⟨w, hw⟩ := h
  have hlist := hw
  rw [sortKeys] at hlist
  obtain ⟨ys, -, rfl⟩ := Option.map_eq_some_iff.mp hlist
  refine ⟨imageList P (mapStrList readAscii ys), ?_, fun y hy => ?_⟩
  · unfold reread
    rw [hw]
    rfl
  · rw [imageList_eq_map] at hy
    obtain ⟨x, -, rfl⟩ := List.mem_map.mp hy
    exact (isJson_image P x).1

theorem reread_dict {ms : Members P.Float} (hms : NamedItems ms) (h : Sortable P (.dict ms)) :
    ∃ e : Members P.Float, reread P (.dict ms) = some (.dict e) ∧
      ∀ k, get e k = (get ms k).bind (reread P) := by
  obtain ⟨w, hw⟩ := h
  have hdumps : dumpsSortedAscii P .compact (.dict ms) = some (asciiText (dumps P .compact w)) := by
    unfold dumpsSortedAscii dumpsSorted
    rw [hw]
    rfl
  obtain ⟨e, hloads, hget⟩ := loads_of_dumpsSortedAscii P hms hdumps
  refine ⟨e, ?_, hget⟩
  unfold reread
  rw [hw, Option.map_some, ← hloads]
  exact (loads_dumpsAscii P .compact w).symm

/-! ### Files -/

theorem exists_dumpsSortedAscii {L : Layout} {v : P.Obj} (h : Sortable P v) :
    ∃ t, dumpsSortedAscii P L v = some t := by
  obtain ⟨w, hw⟩ := h
  unfold dumpsSortedAscii dumpsSorted
  rw [hw]
  exact ⟨_, rfl⟩

theorem exists_writeText_row {L : Layout} {ms : Members P.Float} {t : Str}
    (h : dumpsSortedAscii P L (.dict ms) = some t) :
    ∃ file, writeText t = .ok file ∧ readText file = .ok t := by
  have hrow : AsciiRow P L t := exists_dumpsAscii_of_sorted P h
  obtain ⟨file, hfile⟩ : ∃ file, encode t = some file :=
    exists_encode_iff.mpr (encodable_of_ascii fun c hc => (hrow.printable c hc).2.trans (by decide))
  refine ⟨file, writeText_of_encode hfile, readText_of_encode hfile fun c hc hcr => ?_⟩
  have hle := (hrow.printable c hc).1
  rw [hcr] at hle
  exact absurd hle (by decide)

/-! ### Logs -/

theorem exists_appendSorted_iff {file : Bytes} {ms : Members P.Float} :
    (∃ file', appendSorted P file (.dict ms) = .ok file') ↔ Sortable P (.dict ms) :=
  ⟨fun ⟨_, h⟩ => sortKeys_of_appendSorted h, fun ⟨_, h⟩ => exists_appendSorted h file⟩

theorem exists_readText_append {file file' : Bytes} {text : Str} {ms : Members P.Float}
    (hfile : readText file = .ok text) (htext : CompleteLines text) (hms : NamedItems ms)
    (h : appendSorted P file (.dict ms) = .ok file') :
    ∃ text' e, readText file' = .ok text' ∧ CompleteLines text' ∧
      (filledLines text').filterMap (loads P) = (filledLines text).filterMap (loads P) ++ [.dict e] ∧
        ∀ k, get e k = (get ms k).bind (reread P) := by
  obtain ⟨t, b, ht, hb, rfl⟩ := appendSorted_eq_ok h
  obtain ⟨e, hloads, hget⟩ := loads_of_dumpsSortedAscii P hms ht
  obtain ⟨text', hread, hcomplete, hlines⟩ :=
    readText_append_row hfile htext (exists_dumpsAscii_of_sorted P ht) hb
  refine ⟨text', e, hread, hcomplete, ?_, hget⟩
  rw [hlines, List.filterMap_append]
  exact congrArg _ (List.filterMap_cons_some hloads)

end Py
