import Adaad.Py.Json.Equiv.InOrder

/-!
# Logs of rows

A store that appends `json.dumps(row)` line by line, and reads its log again when it starts.  The log
has one line for each row (`LogRows.filledLines`, `LogRows.readLines`), and each line is read as the
row was written, value by value (`loads_logLine`).
-/

namespace Py

variable (P : Platform)

def logLine (row : Members P.Float) : Str :=
  dumpsAscii P .spaced (.dict row)

def LogRows (rows : List (Members P.Float)) (log : Bytes) : Prop :=
  encode ((rows.map (logLine P)).flatMap (· ++ [lf])) = some log

def readBack (row : Members P.Float) : Members P.Float :=
  imageItems P (readItems row)

variable {P}

theorem asciiRow_logLine (row : Members P.Float) : AsciiRow P .spaced (logLine P row) :=
  ⟨row, rfl⟩

theorem asciiRow_of_mem {rows : List (Members P.Float)} {l : Str} (h : l ∈ rows.map (logLine P)) :
    AsciiRow P .spaced l := by
  obtain ⟨row, -, rfl⟩ := List.mem_map.mp h
  exact asciiRow_logLine row

theorem strip_logLine (row : Members P.Float) : strip (logLine P row) = logLine P row :=
  strip_dumpsAscii_dict P .spaced row

theorem logLine_ne_nil (row : Members P.Float) : logLine P row ≠ [] := by
  intro h
  refine (asciiRow_logLine row).strip_ne_nil ?_
  rw [h]
  rfl

theorem loads_logLine {row : Members P.Float} (hrow : NamedItems row) :
    loads P (logLine P row) = some (.dict (readBack P row)) :=
  loads_dumpsAscii_of_named P hrow

theorem get_readBack {row : Members P.Float} (k : Str) :
    get (readBack P row) k = (get row k).map fun v => image P (v.mapStr readAscii) := by
  unfold readBack
  rw [get_imageItems, get_readItems, Option.map_map]
  rfl

theorem readBack_of_orderly {row : Members P.Float} (h : ∀ m ∈ row, m.2.Orderly) :
    readBack P row = readItems row := by
  unfold readBack imageItems readItems
  rw [List.map_map]
  refine List.map_congr_left fun m hm => ?_
  rw [Function.comp_apply, (h m hm).image_mapStr P]

/-! ### What stays -/

theorem ofUtf16_append {us vs : List Nat} (h : ∀ l ∈ vs.head?, isLowSurrogate l = false) :
    ofUtf16 (us ++ vs) = ofUtf16 us ++ ofUtf16 vs := by
  fun_induction ofUtf16 us with
  | case1 => rfl
  | case2 u =>
    cases vs with
    | nil => rfl
    | cons l vs =>
      have hl := h l rfl
      rw [List.singleton_append, ofUtf16, if_neg (by simp [hl])]
      rfl
  | case3 u l us hpair ih => rw [List.cons_append, List.cons_append, ofUtf16, if_pos hpair, ih,
      List.cons_append]
  | case4 u l us hpair ih =>
    rw [List.cons_append, List.cons_append, ofUtf16, if_neg hpair, ← List.cons_append, ih,
      List.cons_append]

theorem readAscii_append {s t : Str} (h : ∀ c ∈ t.head?, c < 128) :
    readAscii (s ++ t) = readAscii s ++ readAscii t := by
  unfold readAscii utf16
  rw [List.flatMap_append]
  refine ofUtf16_append fun l hl => ?_
  cases t with
  | nil => cases hl
  | cons c t =>
    have hc := h c rfl
    rw [List.flatMap_cons, show utf16Char c = [c] from if_pos (by omega)] at hl
    obtain rfl := Option.some.inj hl
    simp only [isLowSurrogate, Bool.and_eq_false_iff, decide_eq_false_iff_not]
    omega

theorem readAscii_append_of_ascii {s : Str} (h : ∀ c ∈ s, c < 128) (t : Str) :
    readAscii (s ++ t) = s ++ readAscii t := by
  induction s with
  | nil => rfl
  | cons c s ih =>
    obtain ⟨hc, hs⟩ := List.forall_mem_cons.mp h
    have hrest := ih hs
    unfold readAscii at hrest ⊢
    rw [List.cons_append, utf16_cons, show utf16Char c = [c] from if_pos (by omega),
      List.singleton_append, ofUtf16_cons_of_not_high, hrest, List.cons_append]
    simp only [isHighSurrogate, Bool.and_eq_false_iff, decide_eq_false_iff_not]
    omega

/-- A value that is read as it was written. -/
structure Value.Stays {F : Type} (v : Value F) : Prop where
  plain : v.Plain
  wf : v.WF
  mapStr : v.mapStr readAscii = v

theorem Value.stays_str {F : Type} {s : Str} (h : readAscii s = s) : (Value.str s : Value F).Stays :=
  ⟨trivial, trivial, congrArg Value.str h⟩

theorem Value.stays_str_of_ascii {F : Type} {s : Str} (h : ∀ c ∈ s, c < 128) :
    (Value.str s : Value F).Stays :=
  Value.stays_str (readAscii_of_ascii h)

theorem Value.stays_int {F : Type} (i : Int) : (Value.int i : Value F).Stays :=
  ⟨trivial, trivial, rfl⟩

theorem Value.stays_bool {F : Type} (b : Bool) : (Value.bool b : Value F).Stays :=
  ⟨trivial, trivial, rfl⟩

theorem Value.stays_list {F : Type} {xs : List (Value F)} (h : ∀ x ∈ xs, x.Stays) :
    (Value.list xs).Stays where
  plain := by
    rw [Value.Plain, plainList_iff]
    exact fun x hx => (h x hx).plain
  wf := by
    rw [Value.WF, wfList_iff]
    exact fun x hx => (h x hx).wf
  mapStr := mapStr_list_eq_self_iff.mpr fun x hx => (h x hx).mapStr

theorem Value.stays_dict {F : Type} {ms : Members F} (hnodup : (ms.map Prod.fst).Nodup)
    (hkeys : ∀ m ∈ ms, ∃ k, m.1 = .str k ∧ readAscii k = k) (h : ∀ m ∈ ms, m.2.Stays) :
    (Value.dict ms).Stays where
  plain := by
    rw [Value.Plain, plainMembers_iff]
    intro m hm
    obtain ⟨k, hk, -⟩ := hkeys m hm
    refine ⟨?_, (h m hm).plain⟩
    rw [hk]
    rfl
  wf := by
    rw [Value.WF, wfMembers_iff]
    exact ⟨hnodup, fun m hm => (h m hm).wf⟩
  mapStr := by
    refine mapStr_dict_eq_self_iff.mpr fun m hm => ⟨?_, (h m hm).mapStr⟩
    obtain ⟨k, hk, hread⟩ := hkeys m hm
    rw [hk, Key.mapStr, hread]

theorem NamedItems.stays {F : Type} {ms : Members F} (hms : NamedItems ms)
    (h : ∀ m ∈ ms, m.2.Stays) : (Value.dict ms).Stays :=
  Value.stays_dict hms.nodup (fun m hm => by
    obtain ⟨k, hk, hascii⟩ := hms.ascii m hm
    exact ⟨k, hk, readAscii_of_ascii fun c hc => (hascii c hc).trans (by decide)⟩) h

theorem readBack_eq_self {row : Members P.Float} (h : ∀ m ∈ row, m.2.Stays) :
    readBack P row = row := by
  unfold readBack imageItems readItems
  rw [List.map_map]
  refine (List.map_congr_left fun m hm => ?_).trans (List.map_id row)
  rw [Function.comp_apply, (h m hm).mapStr, image_eq_self P (h m hm).plain (h m hm).wf]
  rfl

theorem mem_of_mem_setItem {F : Type} {kvs : Members F} {k : Str} {v : Value F}
    {x : Key F × Value F} (h : x ∈ set kvs k v) : x ∈ kvs ∨ x = (.str k, v) := by
  unfold set at h
  split_ifs at h
  · obtain ⟨m, hm, rfl⟩ := List.mem_map.mp h
    split_ifs with his
    · exact .inr (by rw [Key.is_iff.mp his])
    · exact .inl hm
  · exact (List.mem_append.mp h).imp_right List.mem_singleton.mp

theorem mem_dictOf {ms : List (Str × P.Obj)} {x : Key P.Float × P.Obj} (h : x ∈ dictOf P ms) :
    ∃ m ∈ ms, x = (.str m.1, m.2) := by
  unfold dictOf at h
  induction ms using List.reverseRecOn with
  | nil => exact absurd h List.not_mem_nil
  | append_singleton ms m ih =>
    rw [List.foldl_append] at h
    rcases mem_of_mem_setItem h with hx | rfl
    · obtain ⟨m', hm', rfl⟩ := ih hx
      exact ⟨m', List.mem_append_left _ hm', rfl⟩
    · exact ⟨m, List.mem_append_right _ (List.mem_singleton_self m), rfl⟩

/-! ### The log -/

namespace LogRows

variable {rows : List (Members P.Float)} {log : Bytes}

theorem nil : LogRows P [] [] :=
  rfl

theorem append (h : LogRows P rows log) (row : Members P.Float) :
    LogRows P (rows ++ [row]) (appendRow P log row) := by
  obtain ⟨b, hb⟩ := (asciiRow_logLine row).exists_encode
  unfold LogRows
  rw [List.map_append, List.map_singleton, List.flatMap_append, List.flatMap_singleton]
  refine encode_append_eq_some.mpr ⟨log, b, h, hb, ?_⟩
  rw [appendRow, show rowLine P row = logLine P row ++ [lf] from rfl, hb, Option.getD_some]

theorem readText_eq (h : LogRows P rows log) :
    readText log = .ok ((rows.map (logLine P)).flatMap (· ++ [lf])) :=
  readText_asciiLines (fun _ => asciiRow_of_mem) h

theorem splitlines_eq :
    splitlines ((rows.map (logLine P)).flatMap (· ++ [lf])) = rows.map (logLine P) :=
  splitlines_asciiLines fun _ => asciiRow_of_mem

theorem filledLines_eq :
    filledLines ((rows.map (logLine P)).flatMap (· ++ [lf])) = rows.map (logLine P) :=
  filledLines_asciiLines fun _ => asciiRow_of_mem

theorem readLines_eq (h : LogRows P rows log) :
    readLines P log = (rows.map (logLine P), true) := by
  have hsplit : splitLines newline ((rows.map (logLine P)).flatMap (· ++ [lf])) =
      rows.map (logLine P) := by
    refine splitLines_flatMap newline_lf fun l hl => ?_
    obtain ⟨row, -, rfl⟩ := List.mem_map.mp hl
    exact ⟨logLine_ne_nil row, fun c hc => newline_eq_false_of_mem_dumpsAscii P hc⟩
  unfold readLines
  rw [decode_encode h]
  dsimp only
  rw [hsplit]

end LogRows

end Py
