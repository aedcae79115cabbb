import Adaad.Memory.VersionedStore
import Adaad.Py.Json.Equiv.Sort

/-!
# The document of a versioned store

A document is read as it was written, with the items of its mappings sorted (`exists_write`); it is not
written where a text in it cannot be encoded (`write_eq_error`).
-/

namespace Adaad.Memory

open Py

variable {P : Platform}

theorem readText_dumps {L : Layout} {v : P.Obj} {file : Bytes} (h : encode (dumps P L v) = some file) :
    readText file = .ok (dumps P L v) := by
  refine readText_of_encode h fun c hc hcr => ?_
  have hle := (mem_dumps P L hc).1
  rw [hcr] at hle
  exact absurd hle (by decide)

/-- The document with its keys sorted, which are those of its fields. -/
def JsonState.sortedDict (s : JsonState P) : P.Obj :=
  .dict
    [(.str (str "entries"), .list s.entries),
     (.str (str "head_version_id"), s.headVersionId),
     (.str (str "schema_version"), .str s.schemaVersion)]

/-- A document as a store writes it: the head is a text or `None`. -/
def JsonState.of (schemaVersion : Str) (head : Option Str) (entries : List P.Obj) : JsonState P :=
  ⟨schemaVersion, textOrNone head, entries⟩

theorem sortKeys_asDict (schemaVersion : Str) (head : Option Str) {xs ys : List P.Obj}
    (hys : List.Forall₂ (fun x y => sortKeys P x = some y) xs ys) :
    sortKeys P (JsonState.of schemaVersion head xs).asDict =
      some (JsonState.of schemaVersion head ys).sortedDict := by
  have hhead : sortKeys P (textOrNone head) = some (textOrNone head) := by
    cases head <;> rfl
  have hentries : sortKeys P (.list xs) = some (.list ys) := by
    rw [sortKeys, (sortKeysList_eq_some P).mpr hys]
    rfl
  refine (sortKeys_dict_eq_some P).mpr
    ⟨[(.str (str "schema_version"), .str schemaVersion),
      (.str (str "head_version_id"), textOrNone head),
      (.str (str "entries"), .list ys)], (sortKeysMembers_eq_some P).mpr ?_, rfl, rfl⟩
  exact .cons ⟨rfl, rfl⟩ (.cons ⟨rfl, hhead⟩ (.cons ⟨rfl, hentries⟩ .nil))

theorem image_dict_of_names {ms : Members P.Float} (names : List Str)
    (hkeys : ms.map Prod.fst = names.map Key.str) (hnodup : names.Nodup) :
    image P (.dict ms) = .dict (imageItems P ms) := by
  refine image_dict_of_isString P (fun m hm => ?_) ?_
  · have hmem : m.1 ∈ names.map Key.str := hkeys ▸ List.mem_map_of_mem hm
    obtain ⟨s, -, hkey⟩ := List.mem_map.mp hmem
    rw [← hkey]
    rfl
  · rw [hkeys]
    exact hnodup.map fun _ _ hab => Key.str.inj hab

theorem readJsonState_sortedDict (schemaVersion : Str) (head : Option Str) (ys : List P.Obj)
    {file : Bytes}
    (hfile : encode (dumps P .compact (JsonState.of schemaVersion head ys).sortedDict) = some file) :
    readJsonState P (some file) = .ok (.of schemaVersion head (ys.map (image P))) := by
  have hread : loads P (dumps P .compact (JsonState.of schemaVersion head ys).sortedDict) =
      some (JsonState.of schemaVersion head (ys.map (image P))).sortedDict := by
    have hhead : image P (textOrNone head) = textOrNone head := by
      cases head <;> rfl
    unfold JsonState.sortedDict
    rw [loads_dumps, image_dict_of_names [str "entries", str "head_version_id", str "schema_version"] rfl
      (by decide)]
    show some (Value.dict [(_, .list (imageList P ys)), (_, image P (textOrNone head)), _]) = _
    rw [hhead, imageList_eq_map]
    rfl
  unfold readJsonState
  dsimp only
  rw [readText_dumps hfile]
  dsimp only [bind, Except.bind]
  rw [hread]
  rfl

theorem encodable_dict_of_names {ms : Members P.Float} (names : List Str)
    (hkeys : ms.map Prod.fst = names.map Key.str) (hascii : ∀ s ∈ names, ∀ c ∈ s, c < 128) :
    Encodable (Value.dict ms).chars ↔ ∀ m ∈ ms, Encodable m.2.chars := by
  rw [encodable_dict_iff]
  refine forall₂_congr fun m hm => and_iff_right ?_
  have hmem : m.1 ∈ names.map Key.str := hkeys ▸ List.mem_map_of_mem hm
  obtain ⟨s, hs, hkey⟩ := List.mem_map.mp hmem
  rw [← hkey]
  exact encodable_of_ascii (hascii s hs)

theorem encodable_sortedDict {schemaVersion : Str} {head : Option Str} {ys : List P.Obj} :
    Encodable (JsonState.of schemaVersion head ys).sortedDict.chars ↔
      (∀ y ∈ ys, Encodable y.chars) ∧ Encodable (textOrNone head : P.Obj).chars ∧
        Encodable schemaVersion := by
  unfold JsonState.sortedDict
  rw [encodable_dict_of_names [str "entries", str "head_version_id", str "schema_version"] rfl (by decide),
    List.forall_mem_cons, List.forall_mem_cons, List.forall_mem_singleton]
  exact and_congr encodable_list_iff Iff.rfl

theorem exists_write (schemaVersion : Str) (head : Option Str) {xs ys : List P.Obj}
    (hys : List.Forall₂ (fun x y => sortKeys P x = some y) xs ys)
    (hencodable : Encodable (JsonState.of schemaVersion head ys).sortedDict.chars) :
    ∃ file, writeJsonStateAtomic (.of schemaVersion head xs) = .ok file ∧
      readJsonState P (some file) = .ok (.of schemaVersion head (ys.map (image P))) := by
  obtain ⟨file, hfile⟩ := exists_encode_iff.mpr ((encodable_dumps_iff P .compact).mpr hencodable)
  refine ⟨file, ?_, readJsonState_sortedDict schemaVersion head ys hfile⟩
  unfold writeJsonStateAtomic
  rw [canonicalJson_of_sortKeys (sortKeys_asDict schemaVersion head hys)]
  exact writeText_of_encode hfile

theorem write_eq_error (schemaVersion : Str) (head : Option Str) {xs ys : List P.Obj}
    (hys : List.Forall₂ (fun x y => sortKeys P x = some y) xs ys)
    (h : ¬ Encodable (JsonState.of schemaVersion head ys).sortedDict.chars) :
    writeJsonStateAtomic (.of schemaVersion head xs) = .error .unicodeEncodeError := by
  unfold writeJsonStateAtomic
  rw [canonicalJson_of_sortKeys (sortKeys_asDict schemaVersion head hys)]
  dsimp only [bind, Except.bind]
  have hnone := mt (encodable_dumps_iff P .compact).mp h
  unfold writeText
  cases hfile : encode (dumps P .compact (JsonState.of schemaVersion head ys).sortedDict) with
  | none => rfl
  | some file => exact absurd (exists_encode_iff.mp ⟨file, hfile⟩) hnone

/-! ### Entries -/

/-- The entry with the items of its payload sorted, which is equal to it. -/
def VersionedMemoryEntry.sorted (e : VersionedMemoryEntry P) : VersionedMemoryEntry P :=
  { e with payload := (((sortKeys P (.dict e.payload)).bind Value.members?).getD e.payload) }

def VersionedMemoryEntry.stored (e : VersionedMemoryEntry P) : Members P.Float :=
  [(.str (str "confidence"), .float e.confidence),
   (.str (str "created_at"), .str e.createdAt),
   (.str (str "parent_version_id"), textOrNone e.parentVersionId),
   (.str (str "payload"), .dict e.payload),
   (.str (str "version_id"), .str e.versionId)]

theorem sortKeys_asDict_entry {e : VersionedMemoryEntry P} {kvs : Members P.Float}
    (h : sortKeys P (.dict e.payload) = some (.dict kvs)) :
    sortKeys P e.asDict = some (.dict e.sorted.stored) := by
  have hparent : sortKeys P (textOrNone e.parentVersionId : P.Obj) = some (textOrNone e.parentVersionId) := by
    cases e.parentVersionId <;> rfl
  have hsorted : e.sorted = { e with payload := kvs } := by
    unfold VersionedMemoryEntry.sorted
    rw [h]
    rfl
  rw [hsorted]
  refine (sortKeys_dict_eq_some P).mpr
    ⟨[(.str (str "version_id"), .str e.versionId),
      (.str (str "parent_version_id"), textOrNone e.parentVersionId),
      (.str (str "created_at"), .str e.createdAt),
      (.str (str "payload"), .dict kvs),
      (.str (str "confidence"), .float e.confidence)], (sortKeysMembers_eq_some P).mpr ?_, rfl, rfl⟩
  exact .cons ⟨rfl, rfl⟩ (.cons ⟨rfl, hparent⟩ (.cons ⟨rfl, rfl⟩ (.cons ⟨rfl, h⟩
    (.cons ⟨rfl, rfl⟩ .nil))))

theorem encodable_chars_iff {v w : P.Obj} (h : sortKeys P v = some w) :
    Encodable w.chars ↔ Encodable v.chars :=
  ⟨fun hw c hc => hw c ((mem_chars_sortKeys P h).mpr hc),
    fun hv c hc => hv c ((mem_chars_sortKeys P h).mp hc)⟩

theorem encodable_stored {e : VersionedMemoryEntry P} :
    Encodable (Value.dict e.stored).chars ↔ Encodable e.createdAt ∧
      Encodable (textOrNone e.parentVersionId : P.Obj).chars ∧ Encodable (Value.dict e.payload).chars ∧
        Encodable e.versionId := by
  unfold VersionedMemoryEntry.stored
  rw [encodable_dict_of_names [str "confidence", str "created_at", str "parent_version_id",
    str "payload", str "version_id"] rfl (by decide), List.forall_mem_cons, List.forall_mem_cons,
    List.forall_mem_cons, List.forall_mem_cons, List.forall_mem_singleton]
  exact and_iff_right (encodable_nil : Encodable (Value.float e.confidence : P.Obj).chars)

theorem strOrNone_textOrNone (s : Option Str) : strOrNone (textOrNone s : P.Obj) = s := by
  cases s <;> rfl

theorem jsonAppend_eq {file : Option Bytes} {schemaVersion : Str} {head : Option Str} {xs : List P.Obj}
    (hread : readJsonState P file = .ok (.of schemaVersion head xs)) (payload : Members P.Float)
    {confidence : P.Float} (hvalid : invalidConfidence confidence = false) (now : Str) :
    jsonAppend file payload confidence now =
      (writeJsonStateAtomic (.of schemaVersion (some (nextVersionId xs.length))
        (xs ++ [VersionedMemoryEntry.asDict ⟨nextVersionId xs.length, head, now, payload,
          confidence⟩]))).map fun file' =>
            (⟨nextVersionId xs.length, head, now, payload, confidence⟩, file') := by
  unfold jsonAppend
  rw [if_neg (by rw [hvalid]; exact Bool.false_ne_true), hread]
  dsimp only [bind, Except.bind, JsonState.of]
  rw [strOrNone_textOrNone]
  dsimp only [textOrNone]
  generalize writeJsonStateAtomic _ = written
  cases written <;> rfl

end Adaad.Memory
