import Adaad.Py.Json.Equiv.AsciiRows

/-!
# Keys that stay in order

A document of ASCII has a character beyond the basic plane as a pair of surrogates, and two
surrogates in a row as the same pair: they are read back as the character.  This may change the
order of two keys.  Where it changes the order of none (`Value.InOrder`), a sorted document is also
the one of what it is read as (`dumpsSortedAscii_mapStr`).
-/

namespace Py

section values

variable {F : Type}

/-- The keys are strings, and read back they are in the same order. -/
structure KeysInOrder (ms : Members F) : Prop where
  isString : ∀ m ∈ ms, m.1.isString = true
  order : ∀ a ∈ ms, ∀ b ∈ ms,
    strLe (readAscii a.1.text) (readAscii b.1.text) = strLe a.1.text b.1.text

mutual

def Value.InOrder : Value F → Prop
  | .list xs => InOrderList xs
  | .tuple xs => InOrderList xs
  | .dict kvs => KeysInOrder kvs ∧ InOrderMembers kvs
  | _ => True

def InOrderList : List (Value F) → Prop
  | [] => True
  | x :: xs => x.InOrder ∧ InOrderList xs

def InOrderMembers : List (Key F × Value F) → Prop
  | [] => True
  | (_, v) :: ms => v.InOrder ∧ InOrderMembers ms

end

theorem inOrderList_iff {xs : List (Value F)} : InOrderList xs ↔ ∀ x ∈ xs, x.InOrder := by
  induction xs with
  | nil => simp [InOrderList]
  | cons x xs ih => simp [InOrderList, ih]

theorem inOrderMembers_iff {ms : Members F} : InOrderMembers ms ↔ ∀ m ∈ ms, m.2.InOrder := by
  induction ms with
  | nil => simp [InOrderMembers]
  | cons m ms ih => simp [InOrderMembers, ih]

theorem inOrder_dict {ms : Members F} :
    (Value.dict ms).InOrder ↔ KeysInOrder ms ∧ ∀ m ∈ ms, m.2.InOrder := by
  rw [Value.InOrder, inOrderMembers_iff]

theorem NamedItems.keysInOrder {ms : Members F} (h : NamedItems ms) : KeysInOrder ms where
  isString m hm := h.isString hm
  order a ha b hb := by
    obtain ⟨s, hs, hs'⟩ := h.ascii a ha
    obtain ⟨t, ht, ht'⟩ := h.ascii b hb
    rw [hs, ht]
    show strLe (readAscii s) (readAscii t) = strLe s t
    rw [readAscii_of_ascii fun c hc => Nat.lt_succ_of_lt (hs' c hc),
      readAscii_of_ascii fun c hc => Nat.lt_succ_of_lt (ht' c hc)]

theorem KeysInOrder.of_mem {ms ns : Members F} (h : KeysInOrder ms)
    (hmem : ∀ n ∈ ns, ∃ m ∈ ms, m.1 = n.1) : KeysInOrder ns where
  isString n hn := by
    obtain ⟨m, hm, hmn⟩ := hmem n hn
    exact hmn ▸ h.isString m hm
  order a ha b hb := by
    obtain ⟨a', ha', haa⟩ := hmem a ha
    obtain ⟨b', hb', hbb⟩ := hmem b hb
    rw [← haa, ← hbb]
    exact h.order a' ha' b' hb'

theorem KeysInOrder.nodup {ms : Members F} (h : KeysInOrder ms) (hnodup : (ms.map Prod.fst).Nodup) :
    (ms.map fun m => m.1.mapStr readAscii).Nodup := by
  have hinj : ∀ a ∈ ms, ∀ b ∈ ms, a.1.mapStr readAscii = b.1.mapStr readAscii → a.1 = b.1 := by
    intro a ha b hb hab
    obtain ⟨s, hs⟩ := Key.eq_str_of_isString (h.isString a ha)
    obtain ⟨t, ht⟩ := Key.eq_str_of_isString (h.isString b hb)
    have hst := h.order a ha b hb
    have hts := h.order b hb a ha
    rw [hs, ht] at hab hst hts
    have heq : readAscii s = readAscii t := Key.str.inj hab
    have hrefl : strLe (readAscii t) (readAscii t) = true := by
      rcases strLe_total (readAscii t) (readAscii t) with hle | hle <;> exact hle
    have hle : strLe s t = true := by
      rw [← show strLe (readAscii s) (readAscii t) = strLe s t from hst, heq, hrefl]
    have hge : strLe t s = true := by
      rw [← show strLe (readAscii t) (readAscii s) = strLe t s from hts, heq, hrefl]
    rw [hs, ht, strLe_antisymm hle hge]
  have heq : (ms.map fun m => m.1.mapStr readAscii) =
      (ms.map Prod.fst).map (Key.mapStr readAscii) := by
    rw [List.map_map]
    rfl
  rw [heq]
  refine List.Nodup.map_on ?_ hnodup
  rintro k hk k' hk' hkk
  obtain ⟨a, ha, rfl⟩ := List.mem_map.mp hk
  obtain ⟨b, hb, rfl⟩ := List.mem_map.mp hk'
  exact hinj a ha b hb hkk

/-! ### What is read back -/

theorem Key.mapStr_readAscii (k : Key F) :
    (k.mapStr readAscii).mapStr readAscii = k.mapStr readAscii := by
  cases k with
  | str s => exact congrArg Key.str (readAscii_readAscii s)
  | int | float | bool | none => rfl

theorem Value.mapStr_readAscii (v : Value F) :
    (v.mapStr readAscii).mapStr readAscii = v.mapStr readAscii := by
  induction v using Value.ind with
  | none | bool | int | float => rfl
  | str s => exact congrArg Value.str (readAscii_readAscii s)
  | list xs ih =>
    rw [Value.mapStr, mapStr_list_eq_self_iff, mapStrList_eq_map]
    exact List.forall_mem_map.mpr ih
  | tuple xs ih =>
    rw [Value.mapStr, mapStr_tuple_eq_self_iff, mapStrList_eq_map]
    exact List.forall_mem_map.mpr ih
  | dict kvs ih =>
    rw [Value.mapStr, mapStr_dict_eq_self_iff, mapStrMembers_eq_map]
    exact List.forall_mem_map.mpr fun m hm => ⟨m.1.mapStr_readAscii, ih m hm⟩

theorem Key.isString_mapStr (f : Str → Str) (k : Key F) : (k.mapStr f).isString = k.isString := by
  cases k <;> rfl

theorem Value.Plain.mapStr {v : Value F} (h : v.Plain) (f : Str → Str) : (v.mapStr f).Plain := by
  induction v using Value.ind with
  | none | bool | int | float | str => trivial
  | list xs ih =>
    rw [Value.Plain, plainList_iff] at h
    rw [Value.mapStr, mapStrList_eq_map, Value.Plain, plainList_iff]
    exact List.forall_mem_map.mpr fun x hx => ih x hx (h x hx)
  | tuple xs ih => exact h.elim
  | dict kvs ih =>
    rw [Value.Plain, plainMembers_iff] at h
    rw [Value.mapStr, mapStrMembers_eq_map, Value.Plain, plainMembers_iff]
    refine List.forall_mem_map.mpr fun m hm => ⟨?_, ih m hm (h m hm).2⟩
    rw [Key.isString_mapStr]
    exact (h m hm).1

theorem Value.InOrder.wf_mapStr {v : Value F} (h : v.InOrder) (hw : v.WF) :
    (v.mapStr readAscii).WF := by
  induction v using Value.ind with
  | none | bool | int | float | str => trivial
  | list xs ih | tuple xs ih =>
    rw [Value.InOrder, inOrderList_iff] at h
    rw [Value.WF, wfList_iff] at hw
    rw [Value.mapStr, mapStrList_eq_map, Value.WF, wfList_iff]
    exact List.forall_mem_map.mpr fun x hx => ih x hx (h x hx) (hw x hx)
  | dict kvs ih =>
    rw [inOrder_dict] at h
    rw [Value.WF, wfMembers_iff] at hw
    rw [Value.mapStr, mapStrMembers_eq_map, Value.WF, wfMembers_iff]
    refine ⟨?_, List.forall_mem_map.mpr fun m hm => ih m hm (h.2 m hm) (hw.2 m hm)⟩
    rw [List.map_map]
    exact h.1.nodup hw.1

theorem Value.Flat.inOrder {v : Value F} (h : v.Flat) : v.InOrder := by
  cases v with
  | none | bool | int | float | str => trivial
  | tuple | dict => exact h.elim
  | list xs =>
    rw [Value.InOrder, inOrderList_iff]
    intro x hx
    obtain ⟨s, rfl⟩ := h x hx
    trivial

theorem Value.Plain.inOrder {v : Value F} (h : v.Plain) (hv : v.mapStr readAscii = v) :
    v.InOrder := by
  induction v using Value.ind with
  | none | bool | int | float | str => trivial
  | list xs ih =>
    rw [Value.Plain, plainList_iff] at h
    rw [mapStr_list_eq_self_iff] at hv
    rw [Value.InOrder, inOrderList_iff]
    exact fun x hx => ih x hx (h x hx) (hv x hx)
  | tuple xs ih => exact h.elim
  | dict kvs ih =>
    rw [Value.Plain, plainMembers_iff] at h
    rw [mapStr_dict_eq_self_iff] at hv
    rw [inOrder_dict]
    have htext : ∀ m ∈ kvs, readAscii m.1.text = m.1.text := by
      intro m hm
      obtain ⟨s, hs⟩ := Key.eq_str_of_isString (h m hm).1
      have := (hv m hm).1
      rw [hs] at this ⊢
      exact Key.str.inj this
    refine ⟨⟨fun m hm => (h m hm).1, fun a ha b hb => ?_⟩,
      fun m hm => ih m hm (h m hm).2 (hv m hm).2⟩
    rw [htext a ha, htext b hb]

end values

/-! ### Sorted documents -/

theorem forall₂_imp_mem {α β : Type} {R S : α → β → Prop} {xs : List α} {ys : List β}
    (h : List.Forall₂ R xs ys) (himp : ∀ x y, x ∈ xs → R x y → S x y) : List.Forall₂ S xs ys := by
  induction h with
  | nil => exact .nil
  | @cons x y xs ys hxy _ ih =>
    exact .cons (himp x y List.mem_cons_self hxy)
      (ih fun z w hz => himp z w (List.mem_cons_of_mem _ hz))

variable (P : Platform)

theorem KeysInOrder.sortMembers_map {ms : Members P.Float} (h : KeysInOrder ms) :
    sortMembers P (ms.map fun m => (m.1.mapStr readAscii, m.2.mapStr readAscii)) =
      (sortMembers P ms).map fun m => (m.1.mapStr readAscii, m.2.mapStr readAscii) := by
  refine (List.map_insertionSort (fun a b : Key P.Float × P.Obj => keyLe P a.1 b.1 = true)
    (fun a b : Key P.Float × P.Obj => keyLe P a.1 b.1 = true)
    (fun m => (m.1.mapStr readAscii, m.2.mapStr readAscii)) ms fun a ha b hb => ?_).symm
  have horder := h.order a ha b hb
  obtain ⟨s, hs⟩ := Key.eq_str_of_isString (h.isString a ha)
  obtain ⟨t, ht⟩ := Key.eq_str_of_isString (h.isString b hb)
  rw [hs, ht] at horder ⊢
  exact (congrArg (· = true) horder.symm).to_iff

theorem sortKeys_mapStr {v w : P.Obj} (h : sortKeys P v = some w) (hk : v.InOrder) :
    sortKeys P (v.mapStr readAscii) = some (w.mapStr readAscii) := by
  induction v using Value.ind generalizing w with
  | none | bool | int | float | str =>
    obtain rfl := Option.some.inj h
    rfl
  | list xs ih | tuple xs ih =>
    rw [sortKeys] at h
    obtain ⟨ys, hys, rfl⟩ := Option.map_eq_some_iff.mp h
    rw [Value.InOrder, inOrderList_iff] at hk
    have hall : List.Forall₂ (fun x y => sortKeys P x = some y) (xs.map (Value.mapStr readAscii))
        (ys.map (Value.mapStr readAscii)) := by
      rw [List.forall₂_map_left_iff, List.forall₂_map_right_iff]
      exact forall₂_imp_mem ((sortKeysList_eq_some P).mp hys) fun x y hx hxy => ih x hx hxy (hk x hx)
    rw [Value.mapStr, Value.mapStr, mapStrList_eq_map, mapStrList_eq_map, sortKeys,
      (sortKeysList_eq_some P).mpr hall, Option.map_some]
  | dict kvs ih =>
    obtain ⟨ms, hms, -, rfl⟩ := (sortKeys_dict_eq_some P).mp h
    rw [inOrder_dict] at hk
    have hkeys := hk.1.of_mem fun n hn => by
      obtain ⟨m, hm, hmn⟩ := forall₂_mem ((sortKeysMembers_eq_some P).mp hms) hn
      exact ⟨m, hm, hmn.1⟩
    rw [Value.mapStr, Value.mapStr, mapStrMembers_eq_map, mapStrMembers_eq_map]
    refine (sortKeys_dict_eq_some P).mpr
      ⟨ms.map fun m => (m.1.mapStr readAscii, m.2.mapStr readAscii), ?_, ?_, ?_⟩
    · rw [sortKeysMembers_eq_some P, List.forall₂_map_left_iff, List.forall₂_map_right_iff]
      refine forall₂_imp_mem ((sortKeysMembers_eq_some P).mp hms) fun m n hm hmn => ⟨?_, ?_⟩
      · exact congrArg (Key.mapStr readAscii) hmn.1
      · exact ih m hm hmn.2 (hk.2 m hm)
    · refine comparable_of_isString P ?_
      rw [List.map_map]
      refine List.forall_mem_map.mpr fun m hm => ?_
      show (m.1.mapStr readAscii).isString = true
      rw [Key.isString_mapStr]
      exact hkeys.isString m hm
    · rw [hkeys.sortMembers_map]

theorem dumpsSortedAscii_mapStr (L : Layout) {v : P.Obj} (hp : v.Plain) (hk : v.InOrder) :
    dumpsSortedAscii P L (v.mapStr readAscii) = dumpsSortedAscii P L v := by
  obtain ⟨w, hw⟩ := exists_sortKeys P hp
  have hdumps := dumpsAscii_mapStr P L w
  unfold dumpsAscii at hdumps
  unfold dumpsSortedAscii dumpsSorted
  rw [sortKeys_mapStr P hw hk, hw, Option.map_some, Option.map_some, Option.map_some,
    Option.map_some, hdumps]

theorem Value.InOrder.sortKeys {v w : P.Obj} (hk : v.InOrder) (h : sortKeys P v = some w) :
    w.InOrder := by
  induction v using Value.ind generalizing w with
  | none | bool | int | float | str =>
    obtain rfl := Option.some.inj h
    trivial
  | list xs ih | tuple xs ih =>
    rw [Py.sortKeys] at h
    obtain ⟨ys, hys, rfl⟩ := Option.map_eq_some_iff.mp h
    rw [Value.InOrder, inOrderList_iff] at hk ⊢
    intro y hy
    obtain ⟨x, hx, hxy⟩ := forall₂_mem ((sortKeysList_eq_some P).mp hys) hy
    exact ih x hx (hk x hx) hxy
  | dict kvs ih =>
    obtain ⟨ms, hms, -, rfl⟩ := (sortKeys_dict_eq_some P).mp h
    have hall := (sortKeysMembers_eq_some P).mp hms
    rw [inOrder_dict] at hk ⊢
    refine ⟨hk.1.of_mem fun n hn => ?_, fun n hn => ?_⟩
    · obtain ⟨m, hm, hmn⟩ := forall₂_mem hall ((perm_sortMembers P ms).mem_iff.mp hn)
      exact ⟨m, hm, hmn.1⟩
    · obtain ⟨m, hm, hmn⟩ := forall₂_mem hall ((perm_sortMembers P ms).mem_iff.mp hn)
      exact ih m hm (hk.2 m hm) hmn.2

/-! ### Reading back -/

theorem loads_of_dumpsSortedAscii_eq {L : Layout} {v : P.Obj} {t : Str}
    (h : dumpsSortedAscii P L v = some t) : loads P t = reread P v := by
  obtain ⟨s, hs, rfl⟩ := Option.map_eq_some_iff.mp h
  obtain ⟨w, hw, rfl⟩ := Option.map_eq_some_iff.mp hs
  unfold reread
  rw [hw, Option.map_some]
  exact loads_dumpsAscii P L w

theorem reread_of_inOrder {v w : P.Obj} (h : sortKeys P v = some w) (hp : v.Plain) (hw : v.WF)
    (hk : v.InOrder) : reread P v = some (w.mapStr readAscii) := by
  unfold reread
  rw [h, Option.map_some, image_eq_self P (((plain_sortKeys_iff P h).mpr hp).mapStr readAscii)
    ((hk.sortKeys P h).wf_mapStr (wf_sortKeys P h hw))]

theorem reread_reread {v w : P.Obj} (h : reread P v = some w) (hp : v.Plain) (hw : v.WF)
    (hk : v.InOrder) : reread P w = some w := by
  obtain ⟨u, hu⟩ := exists_sortKeys P hp
  rw [reread_of_inOrder P hu hp hw hk] at h
  obtain rfl := Option.some.inj h
  exact reread_eq_sortKeys P (sortKeys_mapStr P (sortKeys_sortKeys P hu hp) (hk.sortKeys P hu))
    (((plain_sortKeys_iff P hu).mpr hp).mapStr readAscii)
    ((hk.sortKeys P hu).wf_mapStr (wf_sortKeys P hu hw)) (Value.mapStr_readAscii u)

theorem exists_reread_named {ms : Members P.Float} (hms : NamedItems ms)
    (hp : (Value.dict ms : P.Obj).Plain) (hw : (Value.dict ms : P.Obj).WF)
    (hk : (Value.dict ms : P.Obj).InOrder) :
    ∃ obj : Members P.Float, reread P (.dict ms) = some (.dict obj) ∧
      ∀ k, get obj k = ((get ms k).bind (sortKeys P)).map (Value.mapStr readAscii) := by
  obtain ⟨w, hsort⟩ := exists_sortKeys P hp
  obtain ⟨ns, hns, -, rfl⟩ := (sortKeys_dict_eq_some P).mp hsort
  have hnamed : NamedItems (sortMembers P ns) := by
    refine hms.of_keys ?_
    rw [← map_fst_eq_of_sortKeysMembers P hns]
    exact (perm_sortMembers P ns).map Prod.fst
  refine ⟨readItems (sortMembers P ns), ?_, fun k => ?_⟩
  · rw [reread_of_inOrder P hsort hp hw hk, Value.mapStr, hnamed.mapStr_eq]
  · rw [get_readItems, get_sortKeys hsort hms.nodup]

/-! ### Orderly values -/

/-- A value that JSON has, and whose keys stay in order. -/
structure Value.Orderly {F : Type} (v : Value F) : Prop where
  plain : v.Plain
  wf : v.WF
  inOrder : v.InOrder

theorem Value.Flat.orderly {F : Type} {v : Value F} (h : v.Flat) : v.Orderly :=
  ⟨h.plain, h.wf, h.inOrder⟩

theorem NamedItems.orderly {F : Type} {ms : Members F} (hms : NamedItems ms)
    (h : ∀ m ∈ ms, m.2.Orderly) : (Value.dict ms).Orderly where
  plain := by
    rw [Value.Plain, plainMembers_iff]
    exact fun m hm => ⟨hms.isString hm, (h m hm).plain⟩
  wf := by
    rw [Value.WF, wfMembers_iff]
    exact ⟨hms.nodup, fun m hm => (h m hm).wf⟩
  inOrder := inOrder_dict.mpr ⟨hms.keysInOrder, fun m hm => (h m hm).inOrder⟩

theorem Value.Orderly.image_mapStr {v : P.Obj} (h : v.Orderly) :
    image P (v.mapStr readAscii) = v.mapStr readAscii :=
  image_eq_self P (h.plain.mapStr readAscii) (h.inOrder.wf_mapStr h.wf)

theorem NamedItems.flatDict {F : Type} {ms : Members F} (h : NamedItems ms)
    (hflat : ∀ m ∈ ms, m.2.Flat) : FlatDict ms :=
  ⟨h.ascii, h.nodup, hflat⟩

theorem FlatDict.inOrder {F : Type} {ms : Members F} (h : FlatDict ms) : (Value.dict ms).InOrder :=
  inOrder_dict.mpr ⟨h.named.keysInOrder, fun m hm => (h.flat m hm).inOrder⟩

theorem exists_reread_flat {ms : Members P.Float} (h : FlatDict ms) :
    ∃ obj : Members P.Float, reread P (.dict ms) = some (.dict obj) ∧
      ∀ k, get obj k = (get ms k).map (Value.mapStr readAscii) := by
  obtain ⟨obj, hobj, hget⟩ := exists_reread_named P h.named h.isJson.1 h.isJson.2 h.inOrder
  refine ⟨obj, hobj, fun k => ?_⟩
  rw [hget]
  cases hk : get ms k with
  | none => rfl
  | some v =>
    rw [Option.bind_some, (h.flat _ (mem_of_get_eq_some hk)).sortKeys P]

end Py
