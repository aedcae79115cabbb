import Adaad.Ledger.Equiv.ChainFile
import Adaad.Py.Json.Equiv.Sort

/-!
# Entries that are written and read

A writer drafts an entry, hashes the draft by its sorted keys, adds the hash and writes the entry
as a line (`withHash`).  A reader finds the image of it (`entryReadBack`).

What is read back names the same previous hash and carries the same hash (`Draft.hashOf_readBack`).
It is a link of the chain when the hashed text survived the writing (`Draft.links`), and it is the
entry itself when that is plain data (`Draft.readBack_eq_iff`).
-/

namespace Adaad

open Py

variable {P : Platform}

/-! ### Lines -/

variable (P) in
def entryReadBack (e : Members P.Float) : Members P.Float :=
  dictOf P (imageMembers P e)

theorem image_dict (e : Members P.Float) : image P (.dict e) = .dict (entryReadBack P e) := by
  rw [image, entryReadBack]

theorem isLine_dumps (L : Layout) (e : Members P.Float) :
    IsLine (dumps P L (.dict e)) (entryReadBack P e) where
  not_newline _ hc := newline_eq_false_of_mem_dumps hc
  strip_eq := strip_dumps_dict L e
  loads_eq := by rw [loads_dumps, image_dict]

theorem encodable_line_iff {L : Layout} {e : Members P.Float} :
    Encodable (dumps P L (.dict e) ++ [lf]) ↔ Encodable (Value.dict e).chars := by
  rw [← encodable_dumps_iff P L]
  constructor
  · exact fun h c hc => h c (List.mem_append_left _ hc)
  · exact fun h => h.append (encodable_of_ascii (by decide))

/-! ### Hashed drafts -/

theorem encodable_of_chainHash {L : Layout} {prev hash : Str} {e : Members P.Float}
    (h : chainHash P L prev e = .ok hash) : Encodable (Value.dict e).chars := by
  unfold chainHash at h
  split at h
  · exact nomatch h
  · next t ht =>
    obtain ⟨v, hv, rfl⟩ := Option.map_eq_some_iff.mp ht
    split at h
    · exact nomatch h
    · next b hb =>
      have hall := exists_encode_iff.mp ⟨b, hb⟩
      have hdoc : Encodable (dumps P L v) := fun c hc => hall c (List.mem_append_right _ hc)
      rw [encodable_dumps_iff] at hdoc
      exact fun c hc => hdoc c ((mem_chars_sortKeys P hv).mpr hc)

def withHash (draft : Members P.Float) (hash : Str) : Members P.Float :=
  draft ++ [(.str hashKey, .str hash)]

/-- A draft: its keys are distinct strings, `"hash"` is not among them, and it names the previous
hash. -/
structure Draft (prev : Str) (draft : Members P.Float) : Prop where
  isString : ∀ m ∈ draft, m.1.isString = true
  nodup : ((withHash draft []).map Prod.fst).Nodup
  get_prev : ∃ ms ms', draft = ms ++ (.str prevHashKey, .str prev) :: ms'

namespace Draft

variable {prev hash : Str} {draft : Members P.Float}

theorem keys_withHash (draft : Members P.Float) (hash : Str) :
    (withHash draft hash).map Prod.fst = (withHash draft []).map Prod.fst := by
  simp [withHash]

theorem not_is_hashKey (h : Draft prev draft) : ∀ m ∈ draft, m.1.is hashKey = false := by
  intro m hm
  have hnodup := h.nodup
  rw [withHash, List.map_append, List.nodup_append] at hnodup
  by_contra hk
  rw [Bool.not_eq_false, Key.is_iff] at hk
  exact hnodup.2.2 m.1 (List.mem_map_of_mem hm) (.str hashKey) (by simp) hk

theorem set_hash (h : Draft prev draft) (hash : Str) :
    set draft hashKey (.str hash) = withHash draft hash := by
  unfold Py.set withHash
  rw [if_neg]
  simpa using h.not_is_hashKey

theorem without_withHash (h : Draft prev draft) (hash : Str) :
    without (withHash draft hash) hashKey = draft := by
  have hdraft : without draft hashKey = draft := by
    unfold without
    rw [List.filter_eq_self]
    exact fun m hm => by rw [h.not_is_hashKey m hm]; rfl
  rw [withHash, without_append, hdraft]
  simp [without, Key.is]

theorem image_draft (h : Draft prev draft) : Draft prev (imageItems P draft) where
  isString := List.forall_mem_map.mpr h.isString
  nodup := by
    have := h.nodup
    simpa [withHash, imageItems, List.map_map, Function.comp_def] using this
  get_prev := by
    obtain ⟨ms, ms', rfl⟩ := h.get_prev
    exact ⟨imageItems P ms, imageItems P ms', by simp [imageItems, image]⟩

theorem isString_withHash (h : Draft prev draft) :
    ∀ m ∈ withHash draft hash, m.1.isString = true := by
  intro m hm
  rcases List.mem_append.mp hm with hm | hm
  · exact h.isString m hm
  · obtain rfl := List.mem_singleton.mp hm
    rfl

theorem readBack_withHash (h : Draft prev draft) :
    entryReadBack P (withHash draft hash) = withHash (imageItems P draft) hash := by
  have := image_dict_of_isString P h.isString_withHash (by rw [keys_withHash draft hash]; exact h.nodup)
  rw [image_dict, Value.dict.injEq] at this
  rw [this]
  simp only [withHash, imageItems, List.map_append, List.map_singleton]
  rfl

theorem get_prev_withHash (h : Draft prev draft) :
    get (withHash draft hash) prevHashKey = some (.str prev) := by
  obtain ⟨ms, ms', rfl⟩ := h.get_prev
  have hnodup := h.nodup
  have hms : get ms prevHashKey = none := by
    simp only [Py.get, Option.map_eq_none_iff, List.find?_eq_none]
    intro m hm hk
    rw [Key.is_iff] at hk
    rw [withHash, List.append_assoc, List.map_append, List.nodup_append] at hnodup
    exact hnodup.2.2 m.1 (List.mem_map_of_mem hm) (.str prevHashKey) (by simp) hk
  rw [withHash, List.append_assoc, get_append_of_eq_none hms, List.cons_append, get_cons_self]

theorem get_hash_withHash (h : Draft prev draft) :
    get (withHash draft hash) hashKey = some (.str hash) := by
  have hdraft : get draft hashKey = none := by
    simp only [Py.get, Option.map_eq_none_iff, List.find?_eq_none]
    exact fun m hm => by rw [h.not_is_hashKey m hm]; simp
  rw [withHash, get_append_of_eq_none hdraft, get_cons_self]

theorem prevHashOf_withHash (h : Draft prev draft) : prevHashOf P (withHash draft hash) = prev := by
  rw [prevHashOf, h.get_prev_withHash, strOr_str]

theorem hashOf_withHash (h : Draft prev draft) : hashOf P (withHash draft hash) = hash := by
  rw [hashOf, h.get_hash_withHash, strOr_str]

theorem prevHashOf_readBack (h : Draft prev draft) :
    prevHashOf P (entryReadBack P (withHash draft hash)) = prev := by
  rw [h.readBack_withHash, h.image_draft.prevHashOf_withHash]

theorem hashOf_readBack (h : Draft prev draft) :
    hashOf P (entryReadBack P (withHash draft hash)) = hash := by
  rw [h.readBack_withHash, h.image_draft.hashOf_withHash]

theorem links_iff_chainHash (h : Draft prev draft) {prev' : Str} :
    (entryFormat P).Links prev' (entryReadBack P (withHash draft hash)) ↔
      prev = prev' ∧ chainHash P .spaced prev' (imageItems P draft) = .ok hash := by
  rw [links_iff, h.prevHashOf_readBack, h.hashOf_readBack, h.readBack_withHash,
    h.image_draft.without_withHash]

theorem chainHash_imageItems {L : Layout} (hhash : chainHash P L prev draft = .ok hash)
    (hstable : ∀ m ∈ draft, Stable P L m.2) :
    chainHash P L prev (imageItems P draft) = .ok hash := by
  unfold chainHash at hhash ⊢
  cases ht : dumpsSorted P L (.dict draft) with
  | none =>
    rw [ht] at hhash
    exact nomatch hhash
  | some t =>
    rw [dumpsSorted_imageItems P hstable ht]
    rwa [ht] at hhash

theorem links (h : Draft prev draft) (hhash : chainHash P .spaced prev draft = .ok hash)
    (hstable : ∀ m ∈ draft, Stable P .spaced m.2) :
    (entryFormat P).Links prev (entryReadBack P (withHash draft hash)) :=
  h.links_iff_chainHash.mpr ⟨rfl, chainHash_imageItems hhash hstable⟩

theorem readBack_eq_iff (h : Draft prev draft) (hwf : ∀ m ∈ draft, m.2.WF) :
    entryReadBack P (withHash draft hash) = withHash draft hash ↔ ∀ m ∈ draft, m.2.Plain := by
  have hdict : (Value.dict (withHash draft hash)).WF := by
    rw [Value.WF, keys_withHash draft hash, wfMembers_iff]
    refine ⟨h.nodup, fun m hm => ?_⟩
    rcases List.mem_append.mp hm with hm | hm
    · exact hwf m hm
    · obtain rfl := List.mem_singleton.mp hm
      trivial
  have himage : entryReadBack P (withHash draft hash) = withHash draft hash ↔
      image P (.dict (withHash draft hash)) = .dict (withHash draft hash) := by
    rw [image_dict, Value.dict.injEq]
  rw [himage, image_eq_self_iff P hdict, Value.Plain, plainMembers_iff]
  constructor
  · exact fun hall m hm => (hall m (List.mem_append_left _ hm)).2
  · intro hall m hm
    refine ⟨h.isString_withHash m hm, ?_⟩
    rcases List.mem_append.mp hm with hm | hm
    · exact hall m hm
    · obtain rfl := List.mem_singleton.mp hm
      trivial

theorem exists_writeText (hhash : chainHash P .spaced prev draft = .ok hash) :
    ∃ b, encode (dumps P .spaced (.dict (withHash draft hash)) ++ [lf]) = some b := by
  rw [exists_encode_iff, encodable_line_iff]
  have hdraft := encodable_of_chainHash hhash
  intro c hc
  rw [Value.chars, mem_charsMembers] at hc
  obtain ⟨m, hm, hc⟩ := hc
  rcases List.mem_append.mp hm with hm | hm
  · exact hdraft c (by rw [Value.chars, mem_charsMembers]; exact ⟨m, hm, hc⟩)
  · obtain rfl := List.mem_singleton.mp hm
    have hascii : ∀ c ∈ hashKey ++ hash, c < 128 := by
      intro x hx
      rcases List.mem_append.mp hx with hx | hx
      · exact (by decide : ∀ c ∈ hashKey, c < 128) x hx
      · exact isAscii_iff.mp (isAscii_of_chainHash P hhash) x hx
    exact encodable_of_ascii hascii c (List.mem_append.mpr hc)

theorem verified_append {b line : Bytes} (h : Draft prev draft) (hb : EndsBlank b)
    (hprev : Verified P b prev) (hhash : chainHash P .spaced prev draft = .ok hash)
    (hstable : ∀ m ∈ draft, Stable P .spaced m.2)
    (hline : encode (dumps P .spaced (.dict (withHash draft hash)) ++ [lf]) = some line) :
    Verified P (b ++ line) hash ∧ EndsBlank (b ++ line) ∧ ∀ es, entries P b = some es →
      entries P (b ++ line) = some (es ++ [entryReadBack P (withHash draft hash)]) := by
  have hes' : ∀ es, entries P b = some es →
      entries P (b ++ line) = some (es ++ [entryReadBack P (withHash draft hash)]) := fun es hes =>
    (entries_append_of_blank hb).mpr ⟨es, _, hes, entries_line (isLine_dumps _ _) hline, rfl⟩
  obtain ⟨es, hes, hvalid, rfl⟩ := hprev
  obtain ⟨s, hs, -⟩ := entries_eq_some.mp hes
  refine ⟨⟨_, hes' es hes, (entryFormat P).valid_concat.mpr ⟨hvalid, h.links hhash hstable⟩, ?_⟩,
    endsBlank_append_line hs hline, hes'⟩
  rw [(entryFormat P).tail_concat]
  exact h.hashOf_readBack

end Draft

end Adaad
