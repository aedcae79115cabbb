import Adaad.Py.Json.Equiv.RoundTrip

/-!
# Sorted keys

`sortKeys` permutes the items of the mappings in a value and changes nothing else.  On plain data
it always succeeds (`exists_sortKeys`), and what it gives is plain data in sorted order
(`plain_sortKeys`, `sortKeys_sortKeys`).

A text that `loads` accepts is plain data as well (`plain_of_loads`).
-/

namespace Py

variable (P : Platform)

/-! ### Parsed data -/

theorem plainMembers_set {F : Type} {kvs : Members F} (h : PlainMembers kvs) (k : Str)
    {v : Value F} (hv : v.Plain) : PlainMembers (set kvs k v) := by
  rw [plainMembers_iff] at h ⊢
  intro m hm
  unfold set at hm
  split_ifs at hm
  · obtain ⟨x, hx, rfl⟩ := List.mem_map.mp hm
    split_ifs
    · exact ⟨(h x hx).1, hv⟩
    · exact h x hx
  · rcases List.mem_append.mp hm with hm | hm
    · exact h m hm
    · obtain rfl := List.mem_singleton.mp hm
      exact ⟨rfl, hv⟩

theorem wfMembers_set {F : Type} {kvs : Members F} (h : WFMembers kvs) (k : Str)
    {v : Value F} (hv : v.WF) : WFMembers (set kvs k v) := by
  rw [wfMembers_iff] at h ⊢
  intro m hm
  unfold set at hm
  split_ifs at hm
  · obtain ⟨x, hx, rfl⟩ := List.mem_map.mp hm
    split_ifs
    · exact hv
    · exact h x hx
  · rcases List.mem_append.mp hm with hm | hm
    · exact h m hm
    · obtain rfl := List.mem_singleton.mp hm
      exact hv

/-- Plain data whose mappings have distinct keys: what JSON text stands for. -/
def Value.IsJson {F : Type} (v : Value F) : Prop :=
  v.Plain ∧ v.WF

theorem isJson_dictOf {ms : List (Str × P.Obj)} (h : ∀ m ∈ ms, m.2.IsJson) :
    (Value.dict (dictOf P ms)).IsJson := by
  suffices ∀ kvs : Members P.Float, (Value.dict kvs).IsJson →
      (Value.dict (ms.foldl (fun kvs m => set kvs m.1 m.2) kvs)).IsJson from
    this [] ⟨by rw [Value.Plain, PlainMembers]; trivial, by
      rw [Value.WF, WFMembers]
      exact ⟨List.nodup_nil, trivial⟩⟩
  induction ms with
  | nil => exact fun kvs hkvs => hkvs
  | cons m ms ih =>
    intro kvs hkvs
    obtain ⟨hp, hw⟩ := hkvs
    rw [Value.Plain] at hp
    rw [Value.WF] at hw
    have hm := h m (by simp)
    refine ih (fun x hx => h x (by simp [hx])) _ ⟨?_, ?_⟩
    · rw [Value.Plain]
      exact plainMembers_set hp m.1 hm.1
    · rw [Value.WF]
      exact ⟨nodup_set hw.1 m.1 m.2, wfMembers_set hw.2 m.1 hm.2⟩

theorem isJson_image (v : P.Obj) : (image P v).IsJson := by
  have hlist : ∀ xs : List P.Obj, (∀ x ∈ xs, (image P x).IsJson) →
      (Value.list (imageList P xs)).IsJson := by
    intro xs h
    rw [imageList_eq_map]
    refine ⟨?_, ?_⟩
    · rw [Value.Plain, plainList_iff]
      exact List.forall_mem_map.mpr fun x hx => (h x hx).1
    · rw [Value.WF, wfList_iff]
      exact List.forall_mem_map.mpr fun x hx => (h x hx).2
  induction v using Value.ind with
  | none | bool | int | float | str => exact ⟨by trivial, by trivial⟩
  | list xs ih =>
    rw [image]
    exact hlist xs ih
  | tuple xs ih =>
    rw [image]
    exact hlist xs ih
  | dict kvs ih =>
    rw [image, imageMembers_eq_map]
    exact isJson_dictOf P (List.forall_mem_map.mpr fun m hm => ih m hm)

theorem image_eq_self_iff {v : P.Obj} (hw : v.WF) : image P v = v ↔ v.Plain :=
  ⟨fun h => h ▸ (isJson_image P v).1, fun h => image_eq_self P h hw⟩

/-! ### The order of strings -/

theorem strLe_total (s t : Str) : strLe s t = true ∨ strLe t s = true := by
  induction s generalizing t with
  | nil => exact .inl rfl
  | cons a s ih =>
    cases t with
    | nil => exact .inr rfl
    | cons b t =>
      simp only [strLe, Bool.or_eq_true, Bool.and_eq_true, decide_eq_true_eq, beq_iff_eq]
      rcases Nat.lt_trichotomy a b with h | rfl | h
      · exact .inl (.inl h)
      · exact (ih t).imp (fun h => .inr ⟨rfl, h⟩) fun h => .inr ⟨rfl, h⟩
      · exact .inr (.inl h)

theorem strLe_trans {s t u : Str} (hst : strLe s t = true) (htu : strLe t u = true) :
    strLe s u = true := by
  induction s generalizing t u with
  | nil => rfl
  | cons a s ih =>
    cases t with
    | nil => exact absurd hst Bool.false_ne_true
    | cons b t =>
      cases u with
      | nil => exact absurd htu Bool.false_ne_true
      | cons c u =>
        simp only [strLe, Bool.or_eq_true, Bool.and_eq_true, decide_eq_true_eq, beq_iff_eq] at *
        rcases hst with hab | ⟨rfl, hst⟩
        · rcases htu with hbc | ⟨rfl, htu⟩
          · exact .inl (by omega)
          · exact .inl hab
        · rcases htu with hbc | ⟨rfl, htu⟩
          · exact .inl hbc
          · exact .inr ⟨rfl, ih hst htu⟩

theorem strLe_antisymm {s t : Str} (hst : strLe s t = true) (hts : strLe t s = true) : s = t := by
  induction s generalizing t with
  | nil =>
    cases t with
    | nil => rfl
    | cons b t => exact absurd hts Bool.false_ne_true
  | cons a s ih =>
    cases t with
    | nil => exact absurd hst Bool.false_ne_true
    | cons b t =>
      simp only [strLe, Bool.or_eq_true, Bool.and_eq_true, decide_eq_true_eq, beq_iff_eq] at *
      rcases hst with hab | ⟨rfl, hst⟩
      · omega
      · rw [ih hst (hts.resolve_left (lt_irrefl a)).2]

instance : Std.Total fun s t => strLe s t = true := ⟨strLe_total⟩

instance : IsTrans Str fun s t => strLe s t = true := ⟨fun _ _ _ => strLe_trans⟩

instance : Std.Antisymm fun s t => strLe s t = true := ⟨fun _ _ => strLe_antisymm⟩

def Key.text {F : Type} : Key F → Str
  | .str s => s
  | _ => []

/-- Members with string keys, in the order of these. -/
def SortedMembers {F : Type} (ms : Members F) : Prop :=
  ms.Pairwise fun a b => strLe a.1.text b.1.text = true

private theorem keyLe_of_isString {a b : Key P.Float} (ha : a.isString = true)
    (hb : b.isString = true) : keyLe P a b = strLe a.text b.text := by
  obtain ⟨s, rfl⟩ := Key.eq_str_of_isString ha
  obtain ⟨t, rfl⟩ := Key.eq_str_of_isString hb
  rfl

private instance {F : Type} : Std.Total fun a b : Key F × Value F =>
    strLe a.1.text b.1.text = true := ⟨fun _ _ => strLe_total _ _⟩

private instance {F : Type} : IsTrans (Key F × Value F)
    fun a b => strLe a.1.text b.1.text = true := ⟨fun _ _ _ => strLe_trans⟩

private theorem sortMembers_eq {ms : Members P.Float} (h : ∀ m ∈ ms, m.1.isString = true) :
    sortMembers P ms = ms.insertionSort fun a b => strLe a.1.text b.1.text = true := by
  have := List.map_insertionSort (fun a b : Key P.Float × P.Obj => keyLe P a.1 b.1 = true)
    (fun a b => strLe a.1.text b.1.text = true) id ms fun a ha b hb => by
      rw [keyLe_of_isString P (h a ha) (h b hb)]
      rfl
  rwa [List.map_id, List.map_id] at this

theorem sortedMembers_sortMembers {ms : Members P.Float} (h : ∀ m ∈ ms, m.1.isString = true) :
    SortedMembers (sortMembers P ms) := by
  rw [sortMembers_eq P h]
  exact List.pairwise_insertionSort _ _

theorem sortMembers_of_sorted {ms : Members P.Float} (h : ∀ m ∈ ms, m.1.isString = true)
    (hs : SortedMembers ms) : sortMembers P ms = ms := by
  rw [sortMembers_eq P h]
  exact hs.insertionSort_eq

theorem perm_sortMembers (ms : Members P.Float) : (sortMembers P ms).Perm ms :=
  List.perm_insertionSort _ _

/-! ### Sorting a value -/

theorem sortKeysList_eq_some {xs ys : List P.Obj} :
    sortKeysList P xs = some ys ↔ List.Forall₂ (fun x y => sortKeys P x = some y) xs ys := by
  induction xs generalizing ys with
  | nil => simp [sortKeysList, eq_comm]
  | cons x xs ih =>
    rw [sortKeysList, Option.bind_eq_some_iff]
    constructor
    · rintro ⟨y, hy, h⟩
      obtain ⟨ys', hys, rfl⟩ := Option.map_eq_some_iff.mp h
      exact .cons hy (ih.mp hys)
    · rintro (_ | ⟨hy, hys⟩)
      exact ⟨_, hy, Option.map_eq_some_iff.mpr ⟨_, ih.mpr hys, rfl⟩⟩

theorem sortKeysMembers_eq_some {ms ns : Members P.Float} :
    sortKeysMembers P ms = some ns ↔
      List.Forall₂ (fun m n => m.1 = n.1 ∧ sortKeys P m.2 = some n.2) ms ns := by
  induction ms generalizing ns with
  | nil => simp [sortKeysMembers, eq_comm]
  | cons m ms ih =>
    obtain ⟨k, v⟩ := m
    rw [sortKeysMembers, Option.bind_eq_some_iff]
    constructor
    · rintro ⟨w, hw, h⟩
      obtain ⟨ns', hns, rfl⟩ := Option.map_eq_some_iff.mp h
      exact .cons ⟨rfl, hw⟩ (ih.mp hns)
    · intro h
      obtain ⟨⟨k', w⟩, ns', ⟨rfl, hw⟩, hns, rfl⟩ := List.forall₂_cons_left_iff.mp h
      exact ⟨w, hw, Option.map_eq_some_iff.mpr ⟨ns', ih.mpr hns, rfl⟩⟩

theorem sortKeys_dict_eq_some {kvs : Members P.Float} {w : P.Obj} :
    sortKeys P (.dict kvs) = some w ↔
      ∃ ms, sortKeysMembers P kvs = some ms ∧ comparable P (ms.map Prod.fst) = true ∧
        w = .dict (sortMembers P ms) := by
  rw [sortKeys, Option.bind_eq_some_iff]
  constructor
  · rintro ⟨ms, hms, h⟩
    split_ifs at h with hc
    exact ⟨ms, hms, hc, (Option.some.inj h).symm⟩
  · rintro ⟨ms, hms, hc, rfl⟩
    exact ⟨ms, hms, by rw [if_pos hc]⟩

theorem exists_forall₂ {α β : Type} {R : α → β → Prop} {xs : List α}
    (h : ∀ x ∈ xs, ∃ y, R x y) : ∃ ys, List.Forall₂ R xs ys := by
  induction xs with
  | nil => exact ⟨[], .nil⟩
  | cons x xs ih =>
    obtain ⟨y, hy⟩ := h x (by simp)
    obtain ⟨ys, hys⟩ := ih fun z hz => h z (by simp [hz])
    exact ⟨y :: ys, .cons hy hys⟩

private theorem map_fst_of_forall₂ {ms ns : Members P.Float}
    (h : List.Forall₂ (fun m n => m.1 = n.1 ∧ sortKeys P m.2 = some n.2) ms ns) :
    ms.map Prod.fst = ns.map Prod.fst := by
  induction h with
  | nil => rfl
  | cons h _ ih => rw [List.map_cons, List.map_cons, h.1, ih]

theorem forall₂_mem {α β : Type} {R : α → β → Prop} {xs : List α} {ys : List β}
    (h : List.Forall₂ R xs ys) {y : β} (hy : y ∈ ys) : ∃ x ∈ xs, R x y := by
  induction h with
  | nil => simp at hy
  | cons hxy _ ih =>
    rcases List.mem_cons.mp hy with rfl | hy
    · exact ⟨_, by simp, hxy⟩
    · obtain ⟨x, hx, hr⟩ := ih hy
      exact ⟨x, by simp [hx], hr⟩

theorem comparable_of_isString {ks : List (Key P.Float)}
    (h : ∀ k ∈ ks, k.isString = true) : comparable P ks = true := by
  unfold comparable
  have : ks.all Key.isString = true := List.all_eq_true.mpr h
  simp [this]

theorem exists_sortKeys {v : P.Obj} (h : v.Plain) : ∃ w, sortKeys P v = some w := by
  induction v using Value.ind with
  | none => exact ⟨.none, rfl⟩
  | bool b => exact ⟨.bool b, rfl⟩
  | int i => exact ⟨.int i, rfl⟩
  | float x => exact ⟨.float x, rfl⟩
  | str s => exact ⟨.str s, rfl⟩
  | list xs ih =>
    rw [Value.Plain, plainList_iff] at h
    obtain ⟨ys, hys⟩ := exists_forall₂ fun x hx => ih x hx (h x hx)
    exact ⟨.list ys, by rw [sortKeys, (sortKeysList_eq_some P).mpr hys, Option.map_some]⟩
  | tuple xs ih => exact absurd h (by rw [Value.Plain]; exact id)
  | dict kvs ih =>
    rw [Value.Plain, plainMembers_iff] at h
    have hex : ∀ m ∈ kvs, ∃ n : Key P.Float × P.Obj, m.1 = n.1 ∧ sortKeys P m.2 = some n.2 := by
      intro m hm
      obtain ⟨w, hw⟩ := ih m hm (h m hm).2
      exact ⟨(m.1, w), rfl, hw⟩
    obtain ⟨ms, hms⟩ := exists_forall₂ hex
    refine ⟨_, (sortKeys_dict_eq_some P).mpr ⟨ms, (sortKeysMembers_eq_some P).mpr hms, ?_, rfl⟩⟩
    rw [← map_fst_of_forall₂ P hms]
    exact comparable_of_isString P (List.forall_mem_map.mpr fun m hm => (h m hm).1)

/-- The two values have the same strings, and are plain data or not alike. -/
private def SameText (w v : P.Obj) : Prop :=
  (w.Plain ↔ v.Plain) ∧ (v.WF → w.WF) ∧ ∀ c, c ∈ w.chars ↔ c ∈ v.chars

private theorem sameText_refl (v : P.Obj) : SameText P v v :=
  ⟨Iff.rfl, id, fun _ => Iff.rfl⟩

private theorem sameText_list {xs ys : List P.Obj}
    (h : List.Forall₂ (fun x y => SameText P y x) xs ys) :
    (PlainList ys ↔ PlainList xs) ∧ (WFList xs → WFList ys) ∧
      ∀ c, c ∈ charsList ys ↔ c ∈ charsList xs := by
  induction h with
  | nil => simp
  | cons hxy _ ih =>
    obtain ⟨hp, hw, hc⟩ := hxy
    obtain ⟨hp', hw', hc'⟩ := ih
    simp only [PlainList, WFList, charsList, List.mem_append, hp, hp', hc, hc', implies_true,
      and_true, true_and]
    exact fun h => ⟨hw h.1, hw' h.2⟩

private theorem sameText_members {ms ns : Members P.Float}
    (h : List.Forall₂ (fun m n => m.1 = n.1 ∧ SameText P n.2 m.2) ms ns) :
    (PlainMembers ns ↔ PlainMembers ms) ∧ (WFMembers ms → WFMembers ns) ∧
      ∀ c, c ∈ charsMembers ns ↔ c ∈ charsMembers ms := by
  induction h with
  | nil => simp
  | @cons m n ms ns hmn _ ih =>
    obtain ⟨k, v⟩ := m
    obtain ⟨k', v'⟩ := n
    obtain ⟨rfl, hp, hw, hc⟩ := hmn
    obtain ⟨hp', hw', hc'⟩ := ih
    simp only at hp hw hc
    simp only [PlainMembers, WFMembers, charsMembers, List.mem_append, hp, hp', hc, hc',
      implies_true, and_true, true_and]
    exact fun h => ⟨hw h.1, hw' h.2⟩

private theorem sameText_perm {ms ns : Members P.Float} (h : ns.Perm ms) :
    SameText P (.dict ns) (.dict ms) := by
  refine ⟨?_, ?_, fun c => ?_⟩
  · simp only [Value.Plain, plainMembers_iff, h.mem_iff]
  · simp only [Value.WF, wfMembers_iff, h.mem_iff]
    exact fun hw => ⟨(h.map _).nodup_iff.mpr hw.1, hw.2⟩
  · simp only [Value.chars, mem_charsMembers, h.mem_iff]

private theorem sameText_sortKeys {v w : P.Obj} (h : sortKeys P v = some w) : SameText P w v := by
  induction v using Value.ind generalizing w with
  | none | bool | int | float | str =>
    obtain rfl := Option.some.inj h
    exact sameText_refl P _
  | list xs ih =>
    rw [sortKeys] at h
    obtain ⟨ys, hys, rfl⟩ := Option.map_eq_some_iff.mp h
    have hall := (sortKeysList_eq_some P).mp hys
    have := sameText_list P (List.forall₂_iff_get.mpr ⟨hall.length_eq, fun i hi hi' =>
      ih _ (List.get_mem _ _) (hall.get hi hi')⟩)
    simpa only [SameText, Value.Plain, Value.WF, Value.chars] using this
  | tuple xs ih =>
    rw [sortKeys] at h
    obtain ⟨ys, hys, rfl⟩ := Option.map_eq_some_iff.mp h
    have hall := (sortKeysList_eq_some P).mp hys
    have := sameText_list P (List.forall₂_iff_get.mpr ⟨hall.length_eq, fun i hi hi' =>
      ih _ (List.get_mem _ _) (hall.get hi hi')⟩)
    simpa only [SameText, Value.Plain, Value.WF, Value.chars, true_and] using this.2
  | dict kvs ih =>
    obtain ⟨ms, hms, -, rfl⟩ := (sortKeys_dict_eq_some P).mp h
    have hall := (sortKeysMembers_eq_some P).mp hms
    have hmembers := sameText_members P (List.forall₂_iff_get.mpr ⟨hall.length_eq, fun i hi hi' =>
      ⟨(hall.get hi hi').1, ih _ (List.get_mem _ _) (hall.get hi hi').2⟩⟩)
    have hperm := sameText_perm P (perm_sortMembers P ms)
    refine ⟨?_, fun hw => hperm.2.1 ?_, fun c => (hperm.2.2 c).trans ?_⟩
    · rw [hperm.1, Value.Plain, Value.Plain, hmembers.1]
    · rw [Value.WF] at hw ⊢
      exact ⟨map_fst_of_forall₂ P hall ▸ hw.1, hmembers.2.1 hw.2⟩
    · rw [Value.chars, Value.chars, hmembers.2.2 c]

theorem plain_sortKeys_iff {v w : P.Obj} (h : sortKeys P v = some w) : w.Plain ↔ v.Plain :=
  (sameText_sortKeys P h).1

theorem wf_sortKeys {v w : P.Obj} (h : sortKeys P v = some w) (hv : v.WF) : w.WF :=
  (sameText_sortKeys P h).2.1 hv

theorem mem_chars_sortKeys {v w : P.Obj} (h : sortKeys P v = some w) {c : Nat} :
    c ∈ w.chars ↔ c ∈ v.chars :=
  (sameText_sortKeys P h).2.2 c

theorem sortKeys_sortKeys {v w : P.Obj} (h : sortKeys P v = some w) (hv : v.Plain) :
    sortKeys P w = some w := by
  induction v using Value.ind generalizing w with
  | none | bool | int | float | str =>
    obtain rfl := Option.some.inj h
    exact h
  | list xs ih =>
    rw [sortKeys] at h
    obtain ⟨ys, hys, rfl⟩ := Option.map_eq_some_iff.mp h
    have hall := (sortKeysList_eq_some P).mp hys
    rw [Value.Plain, plainList_iff] at hv
    rw [sortKeys, (sortKeysList_eq_some P).mpr (List.forall₂_same.mpr fun y hy => ?_),
      Option.map_some]
    obtain ⟨x, hx, hxy⟩ := forall₂_mem hall hy
    exact ih x hx hxy (hv x hx)
  | tuple xs ih => exact absurd hv (by rw [Value.Plain]; exact id)
  | dict kvs ih =>
    obtain ⟨ms, hms, hc, rfl⟩ := (sortKeys_dict_eq_some P).mp h
    have hall := (sortKeysMembers_eq_some P).mp hms
    rw [Value.Plain, plainMembers_iff] at hv
    have hkeys : ∀ m ∈ ms, m.1.isString = true := by
      intro m hm
      obtain ⟨x, hx, hxm, -⟩ := forall₂_mem hall hm
      rw [← hxm]
      exact (hv x hx).1
    have hkeys' : ∀ m ∈ sortMembers P ms, m.1.isString = true := fun m hm =>
      hkeys m ((perm_sortMembers P ms).mem_iff.mp hm)
    refine (sortKeys_dict_eq_some P).mpr ⟨sortMembers P ms,
      (sortKeysMembers_eq_some P).mpr (List.forall₂_same.mpr fun m hm => ⟨rfl, ?_⟩),
      comparable_of_isString P (List.forall_mem_map.mpr hkeys'),
      by rw [sortMembers_of_sorted P hkeys' (sortedMembers_sortMembers P hkeys)]⟩
    obtain ⟨x, hx, -, hxm⟩ := forall₂_mem hall ((perm_sortMembers P ms).mem_iff.mp hm)
    exact ih x hx hxm (hv x hx).2

/-! ### Sorted documents -/

/-- The items have the same keys in the same order, and their values satisfy `R`. -/
private def SameKeys (R : P.Obj → P.Obj → Prop) (ms ns : Members P.Float) : Prop :=
  List.Forall₂ (fun m n => m.1 = n.1 ∧ R m.2 n.2) ms ns

private theorem sameKeys_orderedInsert {R : P.Obj → P.Obj → Prop} {m n : Key P.Float × P.Obj}
    (hmn : m.1 = n.1 ∧ R m.2 n.2) {ms ns : Members P.Float} (h : SameKeys P R ms ns) :
    SameKeys P R (ms.orderedInsert (fun a b => keyLe P a.1 b.1 = true) m)
      (ns.orderedInsert (fun a b => keyLe P a.1 b.1 = true) n) := by
  induction h with
  | nil => exact .cons hmn .nil
  | @cons a b as bs hab hrest ih =>
    simp only [List.orderedInsert, ← hmn.1, ← hab.1]
    split_ifs
    · exact .cons hmn (.cons hab hrest)
    · exact .cons hab ih

private theorem sameKeys_sortMembers {R : P.Obj → P.Obj → Prop} {ms ns : Members P.Float}
    (h : SameKeys P R ms ns) : SameKeys P R (sortMembers P ms) (sortMembers P ns) := by
  induction h with
  | nil => exact .nil
  | cons hmn _ ih => exact sameKeys_orderedInsert P hmn ih

private theorem dumps_dict_congr {L : Layout} {ms ns : Members P.Float}
    (h : SameKeys P (fun v w => dumps P L v = dumps P L w) ms ns) :
    dumps P L (.dict ms) = dumps P L (.dict ns) := by
  have hrest : ∀ {as bs : Members P.Float},
      SameKeys P (fun v w => dumps P L v = dumps P L w) as bs →
      dumpsMembers P L as = dumpsMembers P L bs := by
    intro as bs h
    induction h with
    | nil => rfl
    | @cons a b as bs hab _ ih =>
      obtain ⟨k, v⟩ := a
      obtain ⟨k', w⟩ := b
      obtain ⟨rfl, hvw⟩ := hab
      simp only at hvw
      rw [dumpsMembers, dumpsMembers, hvw, ih]
  cases h with
  | nil => rfl
  | @cons a b as bs hab hs =>
    obtain ⟨k, v⟩ := a
    obtain ⟨k', w⟩ := b
    obtain ⟨rfl, hvw⟩ := hab
    simp only at hvw
    rw [dumps, dumps, hvw, hrest hs]

theorem dumpsSorted_dict_congr {L : Layout} {ms ns : Members P.Float}
    (h : List.Forall₂ (fun m n => m.1 = n.1 ∧ dumpsSorted P L m.2 = dumpsSorted P L n.2) ms ns) :
    dumpsSorted P L (.dict ms) = dumpsSorted P L (.dict ns) := by
  have hsort : (sortKeysMembers P ms = none ∧ sortKeysMembers P ns = none) ∨
      ∃ as bs, sortKeysMembers P ms = some as ∧ sortKeysMembers P ns = some bs ∧
        SameKeys P (fun v w => dumps P L v = dumps P L w) as bs := by
    induction h with
    | nil => exact .inr ⟨[], [], rfl, rfl, .nil⟩
    | @cons m n ms ns hmn _ ih =>
      obtain ⟨k, v⟩ := m
      obtain ⟨k', w⟩ := n
      obtain ⟨rfl, hvw⟩ := hmn
      simp only [dumpsSorted] at hvw
      rw [sortKeysMembers, sortKeysMembers]
      rcases hv : sortKeys P v with _ | v' <;> rcases hw : sortKeys P w with _ | w' <;>
        rw [hv, hw] at hvw
      · exact .inl ⟨rfl, rfl⟩
      · exact nomatch hvw
      · exact nomatch hvw
      · rcases ih with ⟨h₁, h₂⟩ | ⟨as, bs, h₁, h₂, hab⟩
        · exact .inl ⟨by rw [h₁]; rfl, by rw [h₂]; rfl⟩
        · exact .inr ⟨(k, v') :: as, (k, w') :: bs, by rw [h₁]; rfl, by rw [h₂]; rfl,
            .cons ⟨rfl, Option.some.inj hvw⟩ hab⟩
  unfold dumpsSorted
  rw [sortKeys, sortKeys]
  rcases hsort with ⟨h₁, h₂⟩ | ⟨as, bs, h₁, h₂, hab⟩
  · rw [h₁, h₂]
  · have hkeys : as.map Prod.fst = bs.map Prod.fst := by
      clear h₁ h₂
      induction hab with
      | nil => rfl
      | cons hmn _ ih => rw [List.map_cons, List.map_cons, hmn.1, ih]
    rw [h₁, h₂, Option.bind_some, Option.bind_some, hkeys]
    by_cases hc : comparable P (bs.map Prod.fst) = true
    · rw [if_pos hc, if_pos hc]
      exact congrArg some (dumps_dict_congr P (sameKeys_sortMembers P hab))
    · rw [if_neg hc, if_neg hc]

/-! ### Stable values -/

/-- Where a value has a sorted document, its image has the same: writing the value and reading it
back does not change what is hashed. -/
def Stable (L : Layout) (v : P.Obj) : Prop :=
  ∀ t, dumpsSorted P L v = some t → dumpsSorted P L (image P v) = some t

theorem stable_of_plain (L : Layout) {v : P.Obj} (hp : v.Plain) (hw : v.WF) : Stable P L v := by
  intro t ht
  rw [image_eq_self P hp hw, ht]

theorem stable_str (L : Layout) (s : Str) : Stable P L (.str s) := fun _ h => h

theorem exists_dumpsSorted_of_mem {L : Layout} {kvs : Members P.Float} {t : Str}
    (h : dumpsSorted P L (.dict kvs) = some t) {m : Key P.Float × P.Obj} (hm : m ∈ kvs) :
    ∃ t', dumpsSorted P L m.2 = some t' := by
  obtain ⟨w, hw, -⟩ := Option.map_eq_some_iff.mp h
  obtain ⟨ns, hns, -⟩ := (sortKeys_dict_eq_some P).mp hw
  obtain ⟨n, -, hmn⟩ := forall₂_mem ((sortKeysMembers_eq_some P).mp hns).flip hm
  exact ⟨dumps P L n.2, by rw [dumpsSorted, hmn.2, Option.map_some]⟩

/-- The image of a `dict` with distinct string keys, item by item. -/
def imageItems (kvs : Members P.Float) : Members P.Float :=
  kvs.map fun m => (m.1, image P m.2)

theorem image_dict_of_isString {kvs : Members P.Float} (hkeys : ∀ m ∈ kvs, m.1.isString = true)
    (hnodup : (kvs.map Prod.fst).Nodup) : image P (.dict kvs) = .dict (imageItems P kvs) := by
  have hkey : ∀ m ∈ kvs, Key.str (keyName P m.1) = m.1 := by
    intro m hm
    obtain ⟨s, hs⟩ := Key.eq_str_of_isString (hkeys m hm)
    rw [hs]
    rfl
  have hnodup' : ((imageMembers P kvs).map fun m => Key.str (F := P.Float) m.1).Nodup := by
    rw [imageMembers_eq_map, List.map_map]
    have : kvs.map ((fun m => Key.str m.1) ∘ fun m => (keyName P m.1, image P m.2)) =
        kvs.map Prod.fst := List.map_congr_left fun m hm => hkey m hm
    rwa [this]
  rw [image, dictOf_eq_map P hnodup', imageMembers_eq_map, List.map_map]
  congr 1
  exact List.map_congr_left fun m hm => Prod.ext (hkey m hm) rfl

theorem dumpsSorted_imageItems {L : Layout} {kvs : Members P.Float} {t : Str}
    (hstable : ∀ m ∈ kvs, Stable P L m.2) (h : dumpsSorted P L (.dict kvs) = some t) :
    dumpsSorted P L (.dict (imageItems P kvs)) = some t := by
  rw [← h]
  refine dumpsSorted_dict_congr P ?_
  rw [imageItems, List.forall₂_map_left_iff]
  refine List.forall₂_same.mpr fun m hm => ⟨rfl, ?_⟩
  obtain ⟨t', ht'⟩ := exists_dumpsSorted_of_mem P h hm
  rw [hstable m hm t' ht', ht']

end Py
