import Adaad.Py.Json.Equiv.Ascii
import Adaad.Py.Json.Equiv.Sort

/-!
# Flat mappings

A record whose keys are ASCII names and whose values are scalars or lists of strings.  Written with
`ensure_ascii=True` it is read back item by item (`loads_dumpsAscii_dict`), and its sorted document
is that of the record that was written (`dumpsSortedAscii_readItems`), so a digest of the sorted
document can be checked by whoever reads the record.
-/

namespace Py

variable {F : Type}

def Value.Flat : Value F → Prop
  | .list xs => ∀ x ∈ xs, ∃ s, x = .str s
  | .tuple _ => False
  | .dict _ => False
  | _ => True

/-- The keys are distinct ASCII strings. -/
structure NamedItems (ms : Members F) : Prop where
  ascii : ∀ m ∈ ms, ∃ k : Str, m.1 = .str k ∧ ∀ c ∈ k, c < 127
  nodup : (ms.map Prod.fst).Nodup

theorem NamedItems.of_keys {ms ns : Members F} (h : NamedItems ms)
    (hkeys : (ns.map Prod.fst).Perm (ms.map Prod.fst)) : NamedItems ns where
  ascii n hn := by
    obtain ⟨m, hm, hmn⟩ := List.mem_map.mp (hkeys.mem_iff.mp (List.mem_map_of_mem hn))
    rw [← hmn]
    exact h.ascii m hm
  nodup := hkeys.nodup_iff.mpr h.nodup

theorem NamedItems.of_names {ms : Members F} (names : List Str)
    (hkeys : ms.map Prod.fst = names.map Key.str) (hascii : ∀ k ∈ names, ∀ c ∈ k, c < 127)
    (hnodup : names.Nodup) : NamedItems ms where
  ascii m hm := by
    have hmem : m.1 ∈ names.map Key.str := hkeys ▸ List.mem_map_of_mem hm
    obtain ⟨k, hk, hkm⟩ := List.mem_map.mp hmem
    exact ⟨k, hkm.symm, hascii k hk⟩
  nodup := by
    rw [hkeys]
    exact hnodup.map fun a b hab => Key.str.inj hab

theorem NamedItems.isString {ms : Members F} (h : NamedItems ms) {m : Key F × Value F}
    (hm : m ∈ ms) : m.1.isString = true := by
  obtain ⟨k, hk, -⟩ := h.ascii m hm
  rw [hk]
  rfl

/-- The keys are distinct ASCII strings and the values are flat. -/
structure FlatDict (ms : Members F) : Prop where
  ascii : ∀ m ∈ ms, ∃ k : Str, m.1 = .str k ∧ ∀ c ∈ k, c < 127
  nodup : (ms.map Prod.fst).Nodup
  flat : ∀ m ∈ ms, m.2.Flat

def readItems (ms : Members F) : Members F :=
  ms.map fun m => (m.1, m.2.mapStr readAscii)

/-! ### Flat values -/

theorem mapStrList_eq_map (f : Str → Str) (xs : List (Value F)) :
    mapStrList f xs = xs.map (Value.mapStr f) := by
  induction xs with
  | nil => rfl
  | cons x xs ih => rw [mapStrList, ih, List.map_cons]

theorem mapStrMembers_eq_map (f : Str → Str) (ms : Members F) :
    mapStrMembers f ms = ms.map fun m => (m.1.mapStr f, m.2.mapStr f) := by
  induction ms with
  | nil => rfl
  | cons m ms ih =>
    obtain ⟨k, v⟩ := m
    rw [mapStrMembers, ih, List.map_cons]

theorem Value.Flat.mapStr (f : Str → Str) {v : Value F} (h : v.Flat) : (v.mapStr f).Flat := by
  cases v with
  | none | bool | int | float | str => trivial
  | tuple | dict => exact h.elim
  | list xs =>
    rw [Value.mapStr, mapStrList_eq_map]
    refine List.forall_mem_map.mpr fun x hx => ?_
    obtain ⟨s, rfl⟩ := h x hx
    exact ⟨f s, rfl⟩

theorem Value.Flat.plain {v : Value F} (h : v.Flat) : v.Plain := by
  cases v with
  | none | bool | int | float | str => trivial
  | tuple | dict => exact h.elim
  | list xs =>
    rw [Value.Plain, plainList_iff]
    intro x hx
    obtain ⟨s, rfl⟩ := h x hx
    trivial

theorem Value.Flat.wf {v : Value F} (h : v.Flat) : v.WF := by
  cases v with
  | none | bool | int | float | str => trivial
  | tuple | dict => exact h.elim
  | list xs =>
    rw [Value.WF, wfList_iff]
    intro x hx
    obtain ⟨s, rfl⟩ := h x hx
    trivial

theorem Value.Flat.sortKeys (P : Platform) {v : P.Obj} (h : v.Flat) :
    Py.sortKeys P v = some v := by
  cases v with
  | none | bool | int | float | str => rfl
  | tuple | dict => exact h.elim
  | list xs =>
    rw [Py.sortKeys, (sortKeysList_eq_some P).mpr, Option.map_some]
    refine List.forall₂_same.mpr fun x hx => ?_
    obtain ⟨s, rfl⟩ := h x hx
    rfl

/-! ### Items -/

theorem map_fst_readItems (ms : Members F) : (readItems ms).map Prod.fst = ms.map Prod.fst := by
  rw [readItems, List.map_map]
  rfl

theorem get_eq_some_of_mem {ms : Members F} (h : (ms.map Prod.fst).Nodup) {k : Str} {v : Value F}
    (hm : (.str k, v) ∈ ms) : get ms k = some v := by
  induction ms with
  | nil => exact nomatch hm
  | cons m ms ih =>
    obtain ⟨hnot, hrest⟩ := List.nodup_cons.mp h
    rcases List.mem_cons.mp hm with rfl | hm
    · exact get_cons_self k v ms
    · have hfalse : m.1.is k = false := by
        rw [Bool.eq_false_iff, Ne, Key.is_iff]
        intro heq
        exact hnot (heq ▸ List.mem_map_of_mem (f := Prod.fst) hm)
      have hcons : get (m :: ms) k = get ms k := by
        unfold Py.get
        rw [List.find?_cons_of_neg]
        rw [hfalse]
        exact Bool.false_ne_true
      rw [hcons]
      exact ih hrest hm

theorem get_eq_none_of_notMem {ms : Members F} {k : Str} (h : Key.str k ∉ ms.map Prod.fst) :
    get ms k = none := by
  unfold Py.get
  rw [Option.map_eq_none_iff, List.find?_eq_none]
  intro m hm his
  rw [Key.is_iff] at his
  exact h (his ▸ List.mem_map_of_mem hm)

theorem mem_of_get_eq_some {ms : Members F} {k : Str} {v : Value F} (h : get ms k = some v) :
    (.str k, v) ∈ ms := by
  obtain ⟨m, hm, rfl⟩ := Option.map_eq_some_iff.mp h
  have his := List.find?_some hm
  rw [← Key.is_iff.mp his]
  exact List.mem_of_find?_eq_some hm

theorem get_of_perm {ms ns : Members F} (h : ms.Perm ns) (hnodup : (ns.map Prod.fst).Nodup)
    (k : Str) : get ms k = get ns k := by
  have hnodup' : (ms.map Prod.fst).Nodup := (h.map Prod.fst).nodup_iff.mpr hnodup
  cases hget : get ns k with
  | some v => exact get_eq_some_of_mem hnodup' (h.mem_iff.mpr (mem_of_get_eq_some hget))
  | none =>
    rw [← hget]
    cases hget' : get ms k with
    | some v =>
      rw [get_eq_some_of_mem hnodup (h.mem_iff.mp (mem_of_get_eq_some hget'))]
    | none => exact hget.symm

theorem get_sortKeys {P : Platform} {kvs ms : Members P.Float}
    (h : sortKeys P (.dict kvs) = some (.dict ms)) (hnodup : (kvs.map Prod.fst).Nodup) (k : Str) :
    get ms k = (get kvs k).bind (sortKeys P) := by
  obtain ⟨ns, hns, -, heq⟩ := (sortKeys_dict_eq_some P).mp h
  obtain rfl := Value.dict.inj heq
  have hall := (sortKeysMembers_eq_some P).mp hns
  have hkeys : kvs.map Prod.fst = ns.map Prod.fst := by
    clear h hns heq hnodup
    induction hall with
    | nil => rfl
    | cons hmn _ ih => rw [List.map_cons, List.map_cons, hmn.1, ih]
  rw [get_of_perm (perm_sortMembers P ns) (hkeys ▸ hnodup)]
  clear h hns heq hnodup hkeys
  induction hall with
  | nil => rfl
  | @cons m n ms ns hmn _ ih =>
    obtain ⟨hkey, hsort⟩ := hmn
    unfold Py.get at ih ⊢
    rw [List.find?_cons, List.find?_cons, hkey]
    cases n.1.is k with
    | true => exact hsort.symm
    | false => exact ih

theorem get_readItems (ms : Members F) (k : Str) :
    get (readItems ms) k = (get ms k).map (Value.mapStr readAscii) := by
  unfold get readItems
  rw [List.find?_map, Option.map_map, Option.map_map]
  rfl

theorem without_readItems (ms : Members F) (k : Str) :
    without (readItems ms) k = readItems (without ms k) := by
  unfold without readItems
  rw [List.filter_map]
  rfl

theorem NamedItems.mapStr_eq {ms : Members F} (h : NamedItems ms) :
    mapStrMembers readAscii ms = readItems ms := by
  rw [mapStrMembers_eq_map]
  refine List.map_congr_left fun m hm => Prod.ext ?_ rfl
  obtain ⟨k, hk, hascii⟩ := h.ascii m hm
  have hread : readAscii k = k := readAscii_of_ascii fun c hc => (hascii c hc).trans (by decide)
  show m.1.mapStr readAscii = m.1
  rw [hk, Key.mapStr, hread]

theorem FlatDict.named {ms : Members F} (h : FlatDict ms) : NamedItems ms :=
  ⟨h.ascii, h.nodup⟩

theorem FlatDict.readItems {ms : Members F} (h : FlatDict ms) : FlatDict (readItems ms) where
  ascii := List.forall_mem_map.mpr fun m hm => h.ascii m hm
  nodup := by
    rw [map_fst_readItems]
    exact h.nodup
  flat := List.forall_mem_map.mpr fun m hm => (h.flat m hm).mapStr readAscii

theorem FlatDict.isJson {ms : Members F} (h : FlatDict ms) : (Value.dict ms).IsJson := by
  refine ⟨?_, ?_⟩
  · rw [Value.Plain, plainMembers_iff]
    exact fun m hm => ⟨h.named.isString hm, (h.flat m hm).plain⟩
  · rw [Value.WF, wfMembers_iff]
    exact ⟨h.nodup, fun m hm => (h.flat m hm).wf⟩

/-! ### Documents -/

variable (P : Platform)

theorem loads_dumpsAscii_dict (L : Layout) {ms : Members P.Float} (h : FlatDict ms) :
    loads P (dumpsAscii P L (.dict ms)) = some (.dict (readItems ms)) := by
  obtain ⟨hplain, hwf⟩ := h.readItems.isJson
  rw [loads_dumpsAscii, Value.mapStr, h.named.mapStr_eq, image_eq_self P hplain hwf]

theorem FlatDict.sortKeys {ms : Members P.Float} (h : FlatDict ms) :
    Py.sortKeys P (.dict ms) = some (.dict (sortMembers P ms)) := by
  refine (sortKeys_dict_eq_some P).mpr ⟨ms, ?_, ?_, rfl⟩
  · refine (sortKeysMembers_eq_some P).mpr (List.forall₂_same.mpr fun m hm => ⟨rfl, ?_⟩)
    exact (h.flat m hm).sortKeys P
  · exact comparable_of_isString P (List.forall_mem_map.mpr fun m hm => h.named.isString hm)

theorem sortMembers_readItems (ms : Members P.Float) :
    sortMembers P (readItems ms) = readItems (sortMembers P ms) :=
  (List.map_insertionSort (fun a b : Key P.Float × P.Obj => keyLe P a.1 b.1 = true)
    (fun a b : Key P.Float × P.Obj => keyLe P a.1 b.1 = true)
    (fun m => (m.1, m.2.mapStr readAscii)) ms fun _ _ _ _ => Iff.rfl).symm

theorem dumpsSortedAscii_readItems (L : Layout) {ms : Members P.Float} (h : FlatDict ms) :
    dumpsSortedAscii P L (.dict (readItems ms)) = dumpsSortedAscii P L (.dict ms) := by
  have hsorted : FlatDict (sortMembers P ms) :=
    { ascii := fun m hm => h.ascii m ((perm_sortMembers P ms).mem_iff.mp hm)
      nodup := ((perm_sortMembers P ms).map _).nodup_iff.mpr h.nodup
      flat := fun m hm => h.flat m ((perm_sortMembers P ms).mem_iff.mp hm) }
  have hdumps : dumpsAscii P L (.dict (readItems (sortMembers P ms))) =
      dumpsAscii P L (.dict (sortMembers P ms)) := by
    rw [← hsorted.named.mapStr_eq]
    exact dumpsAscii_mapStr P L (.dict (sortMembers P ms))
  unfold dumpsSortedAscii dumpsSorted
  rw [h.readItems.sortKeys, h.sortKeys, sortMembers_readItems]
  exact congrArg some hdumps

/-! ### Setting and leaving out -/

theorem get_cons (m : Key F × Value F) (ms : Members F) (k : Str) :
    get (m :: ms) k = if m.1.is k = true then some m.2 else get ms k := by
  unfold Py.get
  rw [List.find?_cons]
  cases m.1.is k <;> rfl

theorem get_set (ms : Members F) (k k' : Str) (v : Value F) :
    get (set ms k v) k' = if k' = k then some v else get ms k' := by
  have hcons : ∀ m : Key F × Value F, get [m] k' = if m.1.is k' = true then some m.2 else none :=
    fun m => get_cons m [] k'
  have his : (Key.str k : Key F).is k' = true ↔ k' = k := by
    rw [Key.is_iff, Key.str.injEq, eq_comm]
  unfold set
  by_cases hk : (ms.any fun m => m.1.is k) = true
  · rw [if_pos hk]
    induction ms with
    | nil => cases hk
    | cons m ms ih =>
      rw [List.map_cons, get_cons, get_cons]
      by_cases hm : m.1.is k = true
      · have hm' : m.1.is k' = true ↔ k' = k := by rw [Key.is_iff.mp hm, his]
        rw [if_pos hm]
        by_cases hkk : k' = k
        · rw [if_pos (hm'.mpr hkk), if_pos hkk]
        · rw [if_neg fun h => hkk (hm'.mp h), if_neg hkk, if_neg fun h => hkk (hm'.mp h)]
          by_cases hrest : (ms.any fun m => m.1.is k) = true
          · rw [ih hrest, if_neg hkk]
          · congr 1
            conv_rhs => rw [← List.map_id ms]
            refine List.map_congr_left fun x hx => if_neg fun h => hrest ?_
            exact List.any_eq_true.mpr ⟨x, hx, h⟩
      · rw [if_neg hm]
        have hrest : (ms.any fun m => m.1.is k) = true := by
          rw [List.any_cons, Bool.eq_false_of_not_eq_true hm, Bool.false_or] at hk
          exact hk
        rw [ih hrest]
        by_cases hkk : k' = k
        · rw [if_neg (hkk ▸ hm), if_pos hkk, if_pos hkk]
        · rw [if_neg hkk, if_neg hkk]
  · rw [if_neg hk]
    by_cases hkk : k' = k
    · have hnone : get ms k' = none := by
        unfold Py.get
        rw [Option.map_eq_none_iff, List.find?_eq_none]
        exact fun m hm h => hk (List.any_eq_true.mpr ⟨m, hm, hkk ▸ h⟩)
      rw [get_append_of_eq_none hnone, hcons, if_pos (his.mpr hkk), if_pos hkk]
    · have happend : ∀ ns : Members F, get (ns ++ [(.str k, v)]) k' = get ns k' := by
        intro ns
        induction ns with
        | nil => exact (hcons _).trans (if_neg fun h => hkk (his.mp h))
        | cons n ns ih => rw [List.cons_append, get_cons, get_cons, ih]
      rw [happend, if_neg hkk]

theorem without_set_self (ms : Members F) (k : Str) (v : Value F) :
    without (set ms k v) k = without ms k := by
  unfold set without
  split_ifs with hk
  · rw [List.filter_map]
    have hkey : ((fun m : Key F × Value F => !m.1.is k) ∘
        fun m : Key F × Value F => if m.1.is k = true then (m.1, v) else m) =
          fun m => !m.1.is k := by
      funext m
      simp only [Function.comp_apply]
      split_ifs <;> rfl
    rw [hkey]
    conv_rhs => rw [← List.map_id (ms.filter _)]
    refine List.map_congr_left fun m hm => ?_
    have := (List.mem_filter.mp hm).2
    rw [if_neg (by simpa using this)]
    rfl
  · rw [List.filter_append]
    simp [Key.is]

theorem sortKeys_without {P : Platform} {kvs ms : Members P.Float}
    (h : sortKeys P (.dict kvs) = some (.dict ms)) (hjson : (Value.dict kvs).IsJson) (k : Str) :
    sortKeys P (.dict (without kvs k)) = some (.dict (without ms k)) := by
  obtain ⟨ns, hns, hc, heq⟩ := (sortKeys_dict_eq_some P).mp h
  obtain rfl := Value.dict.inj heq
  have hall := (sortKeysMembers_eq_some P).mp hns
  have hplain := hjson.1
  have hdistinct : (kvs.map Prod.fst).Nodup := hjson.2.1
  rw [Value.Plain, plainMembers_iff] at hplain
  have hkeys : kvs.map Prod.fst = ns.map Prod.fst := by
    clear h hns heq hc hplain hjson hdistinct
    induction hall with
    | nil => rfl
    | cons hmn _ ih => rw [List.map_cons, List.map_cons, hmn.1, ih]
  have hstring : ∀ m ∈ ns, m.1.isString = true := by
    intro m hm
    obtain ⟨x, hx, hxm, -⟩ := forall₂_mem hall hm
    exact hxm ▸ (hplain x hx).1
  have hfilter : List.Forall₂ (fun m n => m.1 = n.1 ∧ sortKeys P m.2 = some n.2)
      (without kvs k) (without ns k) := by
    clear h hns heq hc hplain hkeys hstring hjson hdistinct
    unfold without
    induction hall with
    | nil => exact .nil
    | @cons m n ms ns hmn _ ih =>
      rw [List.filter_cons, List.filter_cons, hmn.1]
      split_ifs
      · exact .cons hmn ih
      · exact ih
  have hsub : ∀ m ∈ without ns k, m.1.isString = true := fun m hm =>
    hstring m (List.mem_filter.mp hm).1
  have hnodup : (ns.map Prod.fst).Nodup := hkeys ▸ hdistinct
  refine (sortKeys_dict_eq_some P).mpr ⟨without ns k, (sortKeysMembers_eq_some P).mpr hfilter,
    comparable_of_isString P (List.forall_mem_map.mpr hsub), congrArg Value.dict ?_⟩
  refine List.Perm.eq_of_pairwise ?_
    ((sortedMembers_sortMembers P hstring).filter _) (sortedMembers_sortMembers P hsub)
    (((perm_sortMembers P ns).filter _).trans (perm_sortMembers P (without ns k)).symm)
  -- two items with the same key are the same item
  intro a b ha hb hab hba
  have ha := (perm_sortMembers P ns).mem_iff.mp (List.mem_filter.mp ha).1
  have hb := (List.mem_filter.mp ((perm_sortMembers P (without ns k)).mem_iff.mp hb)).1
  obtain ⟨s, hs⟩ := Key.eq_str_of_isString (hstring a ha)
  obtain ⟨t, ht⟩ := Key.eq_str_of_isString (hstring b hb)
  have hkey : a.1 = b.1 := by
    rw [hs, ht] at hab hba
    rw [hs, ht, show s = t from strLe_antisymm hab hba]
  exact List.inj_on_of_nodup_map hnodup ha hb hkey

end Py
