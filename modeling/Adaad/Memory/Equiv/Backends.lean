import Adaad.Memory.Equiv.JsonState
import Adaad.Py.Reference
import Adaad.Run

/-!
# The two backends

Two stores that begin empty and take the same calls, one with each backend, have the same history and
the same head after every call, and give the same replies exactly when the versions that are asked for
can be encoded (`always_sound_iff`): SQL encodes a text before it is compared.
-/

namespace Adaad.Memory

open Py

variable {P : Platform}

/-! ### Entries -/

def VersionedMemoryEntry.row (e : VersionedMemoryEntry P) : Row P where
  versionId := e.versionId
  parentVersionId := e.parentVersionId
  createdAt := e.createdAt
  payloadJson := dumps P .compact (.dict e.payload)
  confidence := e.confidence

/-- An entry that a store has. -/
structure VersionedMemoryEntry.Stored (e : VersionedMemoryEntry P) : Prop where
  isJson : (Value.dict e.payload).IsJson
  sorted : sortKeys P (.dict e.payload) = some (.dict e.payload)
  encodable : Encodable (Value.dict e.stored).chars

theorem VersionedMemoryEntry.Stored.sorted_eq {e : VersionedMemoryEntry P} (h : e.Stored) :
    e.sorted = e := by
  unfold VersionedMemoryEntry.sorted
  rw [h.sorted]
  rfl

theorem isJson_textOrNone (head : Option Str) : (textOrNone head : P.Obj).IsJson := by
  cases head <;> exact ⟨trivial, trivial⟩

theorem isJson_asDict {e : VersionedMemoryEntry P} (h : (Value.dict e.payload).IsJson) :
    e.asDict.IsJson := by
  have hparent := isJson_textOrNone (P := P) e.parentVersionId
  refine ⟨plainMembers_iff.mpr ?_, wf_of_names
    [str "version_id", str "parent_version_id", str "created_at", str "payload", str "confidence"]
    rfl (by decide) ?_⟩
  · refine List.forall_mem_cons.mpr ⟨⟨rfl, trivial⟩, List.forall_mem_cons.mpr ⟨⟨rfl, hparent.1⟩, ?_⟩⟩
    refine List.forall_mem_cons.mpr ⟨⟨rfl, trivial⟩, List.forall_mem_cons.mpr ⟨⟨rfl, h.1⟩, ?_⟩⟩
    exact List.forall_mem_singleton.mpr ⟨rfl, trivial⟩
  · refine List.forall_mem_cons.mpr ⟨trivial, List.forall_mem_cons.mpr ⟨hparent.2, ?_⟩⟩
    refine List.forall_mem_cons.mpr ⟨trivial, List.forall_mem_cons.mpr ⟨h.2, ?_⟩⟩
    exact List.forall_mem_singleton.mpr trivial

theorem Payload.exists_sortKeys (payload : Payload P) :
    ∃ kvs, sortKeys P (.dict payload.items) = some (.dict kvs) := by
  obtain ⟨w, hw⟩ := Py.exists_sortKeys P payload.plain
  obtain ⟨ms, -, -, rfl⟩ := (sortKeys_dict_eq_some P).mp hw
  exact ⟨sortMembers P ms, hw⟩

theorem VersionedMemoryEntry.Stored.sortKeys_stored {e : VersionedMemoryEntry P} (h : e.Stored) :
    sortKeys P (.dict e.stored) = some (.dict e.stored) := by
  have hstored := sortKeys_asDict_entry h.sorted
  rw [h.sorted_eq] at hstored
  exact sortKeys_sortKeys P hstored (isJson_asDict h.isJson).1

theorem VersionedMemoryEntry.Stored.isJson_stored {e : VersionedMemoryEntry P} (h : e.Stored) :
    (Value.dict e.stored).IsJson := by
  have hdict := isJson_asDict h.isJson
  have hstored := sortKeys_asDict_entry h.sorted
  rw [h.sorted_eq] at hstored
  exact ⟨(plain_sortKeys_iff P hstored).mpr hdict.1, wf_sortKeys P hstored hdict.2⟩

/-! ### What is read -/

variable (F : Conversions P) {es : List (VersionedMemoryEntry P)}

theorem entryFromDict_stored (e : VersionedMemoryEntry P) : entryFromDict F e.stored = .ok e := by
  have hpayload : dictOfValue P ((orElse P (get e.stored (str "payload")) (some (.dict []))).getD .none) =
      .ok (some e.payload) := by
    have hget : get e.stored (str "payload") = some (.dict e.payload) := rfl
    rw [hget]
    unfold orElse
    cases e.payload <;> rfl
  have hconfidence : ((get e.stored (str "confidence")).map F.float).getD
      (.ok (P.floatOf (.lit ⟨false, [48], [48], none⟩))) = .ok e.confidence :=
    F.float_float e.confidence
  have hparent : (get e.stored (str "parent_version_id")).bind strOrNone = e.parentVersionId :=
    strOrNone_textOrNone e.parentVersionId
  unfold entryFromDict
  rw [hpayload, hconfidence, hparent]
  rfl

theorem filterMap_stored (es : List (VersionedMemoryEntry P)) :
    (es.map fun e => (.dict e.stored : P.Obj)).filterMap Value.members? = es.map (·.stored) := by
  rw [List.filterMap_map, show (Value.members? ∘ fun e : VersionedMemoryEntry P => (.dict e.stored : P.Obj)) =
    fun e => some e.stored from rfl]
  exact congrFun List.filterMap_eq_map' es

theorem findEntry_stored (versionId : Str) :
    findEntry F (es.map fun e => .dict e.stored) (.str versionId) =
      .ok (es.find? fun e => e.versionId = versionId) := by
  have hequal : ∀ e : VersionedMemoryEntry P, F.equal ((get e.stored (str "version_id")).getD .none)
      (.str versionId) = decide (e.versionId = versionId) := fun e => F.equal_str e.versionId versionId
  unfold findEntry
  dsimp only
  rw [filterMap_stored, List.find?_map, show ((fun raw => F.equal
    ((get raw (str "version_id")).getD .none) (.str versionId)) ∘ fun e : VersionedMemoryEntry P =>
      e.stored) = fun e => decide (e.versionId = versionId) from funext hequal]
  cases hfind : es.find? fun e => decide (e.versionId = versionId) with
  | none => rfl
  | some e =>
    rw [Option.map_some]
    dsimp only
    rw [entryFromDict_stored]
    rfl

theorem mapM_entryFromDict : (es.map (·.stored)).mapM (entryFromDict F) = .ok es := by
  refine mapM_eq_ok.mpr (List.forall₂_map_left_iff.mpr (List.forall₂_same.mpr fun e _ => ?_))
  exact entryFromDict_stored F e

/-! ### The table -/

theorem VersionedMemoryEntry.Stored.rowEntry {e : VersionedMemoryEntry P} (h : e.Stored) :
    e.row.entry = .ok e := by
  unfold Row.entry row
  dsimp only
  rw [loads_dumps, image_eq_self P h.isJson.1 h.isJson.2]
  rfl

theorem mapM_rowEntry (h : ∀ e ∈ es, e.Stored) : (es.map (·.row)).mapM Row.entry = .ok es :=
  mapM_eq_ok.mpr (List.forall₂_map_left_iff.mpr (List.forall₂_same.mpr fun e he => (h e he).rowEntry))

theorem bindText_of_encodable {s : Str} (h : Encodable s) : bindText s = .ok () := by
  obtain ⟨b, hb⟩ := exists_encode_iff.mpr h
  unfold bindText
  rw [hb]

theorem bindText_of_not_encodable {s : Str} (h : ¬ Encodable s) :
    bindText s = .error (.raised .unicodeEncodeError) := by
  unfold bindText
  cases hencode : encode s with
  | none => rfl
  | some b => exact absurd (exists_encode_iff.mp ⟨b, hencode⟩) h

theorem bindParent_of_encodable {s : Option Str} (h : ∀ v ∈ s, Encodable v) :
    (s.map bindText).getD (.ok ()) = .ok () := by
  cases s with
  | none => rfl
  | some v => exact bindText_of_encodable (h v rfl)

theorem insert_of_encodable {t : Tables P} {row : Row P} (hversion : Encodable row.versionId)
    (hparent : ∀ v ∈ row.parentVersionId, Encodable v) (hcreated : Encodable row.createdAt)
    (hpayload : Encodable row.payloadJson) (hnumber : P.floatText row.confidence ≠ .nan)
    (hnew : t.row row.versionId = none) :
    t.insert row = .ok { t with memoryEntries := t.memoryEntries ++ [row] } := by
  unfold Tables.insert
  rw [bindText_of_encodable hversion, bindParent_of_encodable hparent, bindText_of_encodable hcreated,
    bindText_of_encodable hpayload, hnew]
  dsimp only [bind, Except.bind]
  rw [if_neg (by rintro (h | h); exacts [hnumber h, Bool.false_ne_true h])]
  rfl

theorem insert_of_not_encodable {t : Tables P} {row : Row P} (hversion : Encodable row.versionId)
    (hparent : ∀ v ∈ row.parentVersionId, Encodable v)
    (hnot : ¬ (Encodable row.payloadJson ∧ Encodable row.createdAt)) :
    t.insert row = .error (.raised .unicodeEncodeError) := by
  unfold Tables.insert
  rw [bindText_of_encodable hversion, bindParent_of_encodable hparent]
  dsimp only [bind, Except.bind]
  by_cases hcreated : Encodable row.createdAt
  · rw [bindText_of_encodable hcreated,
      bindText_of_not_encodable fun hpayload => hnot ⟨hpayload, hcreated⟩]
  · rw [bindText_of_not_encodable hcreated]

theorem fetchEntry_row (h : ∀ e ∈ es, e.Stored) (head : Option Str) (versionId : Str) :
    fetchEntry ((⟨es.map (·.row), head⟩ : Tables P).row versionId) =
      .ok (es.find? fun e => e.versionId = versionId) := by
  have hrow : (⟨es.map (·.row), head⟩ : Tables P).row versionId =
      (es.find? fun e => e.versionId = versionId).map (·.row) := by
    unfold Tables.row
    rw [List.find?_map]
    rfl
  rw [hrow]
  cases hfind : es.find? fun e => decide (e.versionId = versionId) with
  | none => rfl
  | some e =>
    rw [Option.map_some]
    unfold fetchEntry
    dsimp only
    rw [(h e (List.mem_of_find?_eq_some hfind)).rowEntry]
    rfl

/-! ### The two stores -/

theorem nextVersionId_injective : Function.Injective nextVersionId := by
  intro m n h
  have hcount : m + 1 = n + 1 := paddedText_inj (List.cons.inj h).2
  omega

theorem encodable_nextVersionId (count : Nat) : Encodable (nextVersionId count) := by
  refine encodable_of_ascii (List.forall_mem_cons.mpr ⟨by decide, fun c hc => ?_⟩)
  exact (printable_of_isDigit (isDigit_of_mem_paddedText hc)).2.trans (by decide)

theorem encodable_schemaVersion : Encodable (str "1") :=
  encodable_of_ascii (by decide)

/-- The two stores have these entries, and the head is this one. -/
structure Agrees (es : List (VersionedMemoryEntry P)) (target : Option (VersionedMemoryEntry P))
    (file : Option Bytes) (t : Tables P) : Prop where
  document : readJsonState P file = .ok (.of (str "1") (target.map (·.versionId))
    (es.map fun e => .dict e.stored))
  table : t = ⟨es.map (·.row), target.map (·.versionId)⟩
  stored : ∀ e ∈ es, e.Stored
  target : ∀ e ∈ target, e ∈ es
  versions : es.map (·.versionId) = (List.range es.length).map nextVersionId

namespace Agrees

variable {target : Option (VersionedMemoryEntry P)} {file : Option Bytes} {t : Tables P}

theorem empty : Agrees ([] : List (VersionedMemoryEntry P)) none none .init where
  document := rfl
  table := rfl
  stored := List.forall_mem_nil _
  target e he := by cases he
  versions := rfl

theorem nodup (h : Agrees es target file t) : (es.map (·.versionId)).Nodup := by
  rw [h.versions]
  exact List.nodup_range.map nextVersionId_injective

theorem find_of_mem (h : Agrees es target file t) {e : VersionedMemoryEntry P} (he : e ∈ es) :
    es.find? (fun e' => e'.versionId = e.versionId) = some e := by
  have hsome : (es.find? fun e' => decide (e'.versionId = e.versionId)).isSome :=
    List.find?_isSome.mpr ⟨e, he, decide_eq_true rfl⟩
  obtain ⟨e', hfind⟩ := Option.isSome_iff_exists.mp hsome
  have hid : e'.versionId = e.versionId := of_decide_eq_true (List.find?_some hfind :)
  rw [hfind, List.inj_on_of_nodup_map h.nodup (List.mem_of_find?_eq_some hfind) he hid]

theorem encodable_versionId (h : Agrees es target file t) {e : VersionedMemoryEntry P} (he : e ∈ es) :
    Encodable e.versionId := by
  have hmem : e.versionId ∈ es.map (·.versionId) := List.mem_map_of_mem he
  rw [h.versions] at hmem
  obtain ⟨count, -, hcount⟩ := List.mem_map.mp hmem
  rw [← hcount]
  exact encodable_nextVersionId count

theorem find_of_not_encodable (h : Agrees es target file t) {versionId : Str}
    (hid : ¬ Encodable versionId) : es.find? (fun e => e.versionId = versionId) = none := by
  refine List.find?_eq_none.mpr fun e he heq => hid ?_
  rw [← of_decide_eq_true heq]
  exact h.encodable_versionId he

/-! ### Calls that read -/

theorem getVersion (h : Agrees es target file t) (versionId : Str) :
    jsonGetVersion F file versionId = .ok (es.find? fun e => e.versionId = versionId) := by
  unfold jsonGetVersion
  rw [h.document]
  exact findEntry_stored F versionId

theorem sqliteGetVersion (h : Agrees es target file t) {versionId : Str} (hid : Encodable versionId) :
    Memory.sqliteGetVersion t versionId = .ok (es.find? fun e => e.versionId = versionId) := by
  unfold Memory.sqliteGetVersion
  rw [bindText_of_encodable hid, h.table]
  exact fetchEntry_row h.stored _ versionId

theorem sqliteGetVersion_of_not_encodable (t : Tables P) {versionId : Str}
    (hid : ¬ Encodable versionId) :
    Memory.sqliteGetVersion t versionId = .error (.raised .unicodeEncodeError) := by
  unfold Memory.sqliteGetVersion
  rw [bindText_of_not_encodable hid]
  rfl

theorem current (h : Agrees es target file t) :
    jsonCurrent F file = .ok target ∧ sqliteCurrent t = .ok target := by
  cases htarget : target with
  | none =>
    rw [htarget] at h
    constructor
    · unfold jsonCurrent
      rw [h.document]
      rfl
    · rw [h.table]
      rfl
  | some e =>
    rw [htarget] at h
    have hfind := h.find_of_mem (h.target e rfl)
    constructor
    · unfold jsonCurrent
      rw [h.document]
      show findEntry F (es.map fun e => .dict e.stored) (.str e.versionId) = .ok (some e)
      rw [findEntry_stored, hfind]
    · rw [h.table]
      show fetchEntry ((⟨es.map (·.row), some e.versionId⟩ : Tables P).row e.versionId) = .ok (some e)
      rw [fetchEntry_row h.stored, hfind]

theorem history (h : Agrees es target file t) (ascending : Bool) :
    jsonIterHistory F file ascending = .ok (if ascending then es else es.reverse) ∧
      sqliteIterHistory t ascending = .ok (if ascending then es else es.reverse) := by
  constructor
  · unfold jsonIterHistory
    rw [h.document]
    dsimp only [bind, Except.bind, JsonState.of]
    rw [filterMap_stored, mapM_entryFromDict]
    rfl
  · unfold sqliteIterHistory
    rw [h.table]
    dsimp only
    cases ascending with
    | true => exact mapM_rowEntry h.stored
    | false =>
      rw [if_neg Bool.false_ne_true, if_neg Bool.false_ne_true, ← List.map_reverse]
      exact mapM_rowEntry fun e he => h.stored e (List.mem_reverse.mp he)

/-! ### Calls that write -/

theorem encodable_document (h : Agrees es target file t) : Encodable (textOrNone
    (target.map (·.versionId)) : P.Obj).chars := by
  cases htarget : target with
  | none => exact encodable_nil
  | some e => exact h.encodable_versionId (h.target e htarget)

theorem forall₂_stored (h : Agrees es target file t) :
    List.Forall₂ (fun x y => sortKeys P x = some y) (es.map fun e => (.dict e.stored : P.Obj))
      (es.map fun e => .dict e.stored) := by
  refine List.forall₂_map_left_iff.mpr (List.forall₂_map_right_iff.mpr (List.forall₂_same.mpr ?_))
  exact fun e he => (h.stored e he).sortKeys_stored

theorem image_entries {ys : List P.Obj} (hjson : ∀ y ∈ ys, y.IsJson) : ys.map (image P) = ys := by
  refine (List.map_congr_left fun y hy => ?_).trans (List.map_id ys)
  exact image_eq_self P (hjson y hy).1 (hjson y hy).2

theorem isJson_entries (h : Agrees es target file t) :
    ∀ x ∈ es.map fun e => (.dict e.stored : P.Obj), x.IsJson := by
  exact List.forall_mem_map.mpr fun e he => (h.stored e he).isJson_stored

theorem rollback (h : Agrees es target file t) {e : VersionedMemoryEntry P} (he : e ∈ es) :
    ∃ file', jsonRollback F file e.versionId = .ok (e, file') ∧
      sqliteRollback t e.versionId = .ok (e, { t with headVersionId := some e.versionId }) ∧
      Agrees es (some e) (some file') { t with headVersionId := some e.versionId } := by
  have hid := h.encodable_versionId he
  obtain ⟨file', hwrite, hread⟩ := exists_write (str "1") (some e.versionId) h.forall₂_stored
    (encodable_sortedDict.mpr
      ⟨List.forall_mem_map.mpr fun e he => (h.stored e he).encodable, hid, encodable_schemaVersion⟩)
  rw [image_entries h.isJson_entries] at hread
  refine ⟨file', ?_, ?_, hread, ?_, h.stored, fun e' he' => ?_, h.versions⟩
  · unfold jsonRollback
    rw [h.getVersion F, h.find_of_mem he]
    dsimp only [bind, Except.bind]
    rw [h.document]
    exact congrArg (Except.map fun file' => (e, file')) hwrite
  · unfold sqliteRollback
    rw [h.sqliteGetVersion hid, h.find_of_mem he]
    dsimp only [bind, Except.bind]
    rw [bindText_of_encodable hid]
    rfl
  · rw [h.table]
    rfl
  · obtain rfl := Option.mem_some_iff.mp he'
    exact he

theorem rollback_of_find_none (h : Agrees es target file t) {versionId : Str}
    (hfind : es.find? (fun e => e.versionId = versionId) = none) :
    jsonRollback F file versionId = .error (.valueError (str "unknown_version_id")) := by
  unfold jsonRollback
  rw [h.getVersion F, hfind]
  rfl

theorem sqliteRollback_of_find_none (h : Agrees es target file t) {versionId : Str}
    (hid : Encodable versionId) (hfind : es.find? (fun e => e.versionId = versionId) = none) :
    sqliteRollback t versionId = .error (.raised (.valueError (str "unknown_version_id"))) := by
  unfold sqliteRollback
  rw [h.sqliteGetVersion hid, hfind]
  rfl

def appended (es : List (VersionedMemoryEntry P)) (target : Option (VersionedMemoryEntry P))
    (payload : Members P.Float) (confidence : P.Float) (now : Str) : VersionedMemoryEntry P where
  versionId := nextVersionId es.length
  parentVersionId := target.map (·.versionId)
  createdAt := now
  payload := payload
  confidence := confidence

variable {payload : Payload P} {confidence : Confidence P} {now : Str}

theorem jsonAppend_eq (h : Agrees es target file t)
    (hvalid : invalidConfidence confidence.value = false) :
    jsonAppend file payload.items confidence.value now =
      (writeJsonStateAtomic (.of (str "1") (some (nextVersionId es.length))
        ((es.map fun e => .dict e.stored) ++
          [(appended es target payload.items confidence.value now).asDict]))).map fun file' =>
            (appended es target payload.items confidence.value now, file') := by
  have heq := Memory.jsonAppend_eq h.document payload.items hvalid now
  rw [List.length_map] at heq
  exact heq

theorem encodable_head (h : Agrees es target file t) :
    ∀ v ∈ target.map (·.versionId), Py.Encodable v := by
  intro v hv
  obtain ⟨e, he, rfl⟩ := Option.mem_map.mp hv
  exact h.encodable_versionId (h.target e he)

theorem find_nextVersionId (h : Agrees es target file t) :
    es.find? (fun e => e.versionId = nextVersionId es.length) = none := by
  refine List.find?_eq_none.mpr fun e he heq => ?_
  have hmem : e.versionId ∈ es.map (·.versionId) := List.mem_map_of_mem he
  rw [h.versions, of_decide_eq_true heq] at hmem
  obtain ⟨count, hcount, heq⟩ := List.mem_map.mp hmem
  rw [nextVersionId_injective heq] at hcount
  exact absurd (List.mem_range.mp hcount) (lt_irrefl _)

theorem sqliteAppend_eq (h : Agrees es target file t)
    (hvalid : invalidConfidence confidence.value = false) {kvs : Members P.Float}
    (hsort : sortKeys P (.dict payload.items) = some (.dict kvs)) :
    sqliteAppend t payload.items confidence.value now =
      (t.insert (appended es target kvs confidence.value now).row).map fun t =>
        (appended es target payload.items confidence.value now,
          { t with headVersionId := some (nextVersionId es.length) }) := by
  unfold sqliteAppend
  rw [if_neg (by rw [hvalid]; exact Bool.false_ne_true)]
  dsimp only
  rw [canonicalJson_of_sortKeys hsort]
  dsimp only [bind, Except.bind, Except.mapError]
  have hcount : t.memoryEntries.length = es.length := by
    rw [h.table]
    exact List.length_map _
  have hhead : t.headVersionId = target.map (·.versionId) := by
    rw [h.table]
  rw [hcount, hhead]
  unfold appended VersionedMemoryEntry.row
  generalize t.insert _ = written
  cases written <;> rfl

/-- The entries of a document once the entry is in it. -/
def entriesWith (es : List (VersionedMemoryEntry P)) (e : VersionedMemoryEntry P) : List P.Obj :=
  (es.map fun e => .dict e.stored) ++ [.dict e.stored]

theorem encodable_entriesWith (h : Agrees es target file t) {kvs : Members P.Float}
    (hsort : sortKeys P (.dict payload.items) = some (.dict kvs)) :
    Encodable (JsonState.of (str "1") (some (nextVersionId es.length))
        (entriesWith es (appended es target kvs confidence.value now))).sortedDict.chars ↔
      Encodable (Value.dict payload.items).chars ∧ Encodable now := by
  have hold : ∀ x ∈ es.map fun e => (.dict e.stored : P.Obj), Encodable x.chars :=
    List.forall_mem_map.mpr fun e he => (h.stored e he).encodable
  have hversion := encodable_nextVersionId es.length
  have hentry : Encodable (Value.dict (appended es target kvs confidence.value now).stored).chars ↔
      Encodable now ∧ Encodable (Value.dict kvs).chars := by
    rw [encodable_stored]
    exact and_congr_right fun _ => (and_iff_right h.encodable_document).trans (and_iff_left hversion)
  rw [encodable_sortedDict, entriesWith, List.forall_mem_append, List.forall_mem_singleton, hentry,
    encodable_chars_iff hsort]
  constructor
  · exact fun hall => ⟨hall.1.2.2, hall.1.2.1⟩
  · exact fun hall => ⟨⟨hold, hall.2, hall.1⟩, hversion, encodable_schemaVersion⟩

theorem sorted_appended {kvs : Members P.Float}
    (hsort : sortKeys P (.dict payload.items) = some (.dict kvs)) :
    (appended es target payload.items confidence.value now).sorted =
      appended es target kvs confidence.value now := by
  unfold VersionedMemoryEntry.sorted appended
  dsimp only
  rw [hsort]
  rfl

theorem forall₂_entriesWith (h : Agrees es target file t) {kvs : Members P.Float}
    (hsort : sortKeys P (.dict payload.items) = some (.dict kvs)) :
    List.Forall₂ (fun x y => sortKeys P x = some y) ((es.map fun e => .dict e.stored) ++
        [(appended es target payload.items confidence.value now).asDict])
      (entriesWith es (appended es target kvs confidence.value now)) := by
  have hentry := sortKeys_asDict_entry (e := appended es target payload.items confidence.value now) hsort
  rw [sorted_appended hsort] at hentry
  exact List.rel_append h.forall₂_stored (.cons hentry .nil)

theorem append (h : Agrees es target file t) (hvalid : invalidConfidence confidence.value = false)
    (hpayload : Encodable (Value.dict payload.items).chars) (hnow : Encodable now) :
    ∃ file' t', jsonAppend file payload.items confidence.value now =
        .ok (appended es target payload.items confidence.value now, file') ∧
      sqliteAppend t payload.items confidence.value now =
        .ok (appended es target payload.items confidence.value now, t') ∧
      Agrees (es ++ [(appended es target payload.items confidence.value now).sorted])
        (some (appended es target payload.items confidence.value now).sorted) (some file') t' := by
  obtain ⟨kvs, hsort⟩ := payload.exists_sortKeys
  rw [sorted_appended hsort]
  have hencodable : Encodable (JsonState.of (str "1") (some (nextVersionId es.length))
      (entriesWith es (appended es target kvs confidence.value now))).sortedDict.chars :=
    (h.encodable_entriesWith hsort).mpr ⟨hpayload, hnow⟩
  have hentries := (encodable_sortedDict.mp hencodable).1
  have hstored : (appended es target kvs confidence.value now).Stored :=
    { isJson := ⟨(plain_sortKeys_iff P hsort).mpr payload.plain, wf_sortKeys P hsort payload.wf⟩
      sorted := sortKeys_sortKeys P hsort payload.plain
      encodable := hentries _ (List.mem_append_right _ (List.mem_singleton_self _)) }
  have hjson : ∀ y ∈ entriesWith es (appended es target kvs confidence.value now), y.IsJson :=
    List.forall_mem_append.mpr ⟨h.isJson_entries, List.forall_mem_singleton.mpr hstored.isJson_stored⟩
  obtain ⟨file', hwrite, hread⟩ := exists_write (str "1") (some (nextVersionId es.length))
    (h.forall₂_entriesWith hsort) hencodable
  rw [image_entries hjson] at hread
  have hnew : t.row (nextVersionId es.length) = none := by
    have hfind := h.find_nextVersionId
    rw [h.table]
    unfold Tables.row
    rw [List.find?_map, Option.map_eq_none_iff]
    exact hfind
  have hrow : Encodable (appended es target kvs confidence.value now).row.payloadJson :=
    (encodable_dumps_iff P .compact).mpr ((encodable_chars_iff hsort).mpr hpayload)
  have hinsert : t.insert (appended es target kvs confidence.value now).row =
      .ok { t with memoryEntries := t.memoryEntries ++ [(appended es target kvs confidence.value now).row] } :=
    insert_of_encodable (encodable_nextVersionId es.length) h.encodable_head hnow hrow
      confidence.isNumber hnew
  refine ⟨file', ⟨(es ++ [appended es target kvs confidence.value now]).map (·.row),
    some (nextVersionId es.length)⟩, ?_, ?_, ?_, rfl, ?_, ?_, ?_⟩
  · rw [h.jsonAppend_eq hvalid, hwrite]
    rfl
  · rw [h.sqliteAppend_eq hvalid hsort, hinsert, h.table, List.map_append]
    rfl
  · rw [hread, List.map_append]
    rfl
  · exact List.forall_mem_append.mpr ⟨h.stored, List.forall_mem_singleton.mpr hstored⟩
  · intro e he
    obtain rfl := Option.mem_some_iff.mp he
    exact List.mem_append_right _ (List.mem_singleton_self _)
  · rw [List.map_append, h.versions, List.length_append, List.length_singleton, List.range_succ,
      List.map_append]
    rfl

theorem append_of_not_encodable (h : Agrees es target file t)
    (hvalid : invalidConfidence confidence.value = false)
    (hnot : ¬ (Encodable (Value.dict payload.items).chars ∧ Encodable now)) :
    jsonAppend file payload.items confidence.value now = .error .unicodeEncodeError ∧
      sqliteAppend t payload.items confidence.value now = .error (.raised .unicodeEncodeError) := by
  obtain ⟨kvs, hsort⟩ := payload.exists_sortKeys
  constructor
  · rw [h.jsonAppend_eq hvalid, write_eq_error (str "1") (some (nextVersionId es.length))
      (h.forall₂_entriesWith hsort) (mt (h.encodable_entriesWith hsort).mp hnot)]
    rfl
  · have hrow : ¬ (Encodable (appended es target kvs confidence.value now).row.payloadJson ∧
        Encodable now) := fun hall =>
      hnot ⟨(encodable_chars_iff hsort).mp ((encodable_dumps_iff P .compact).mp hall.1), hall.2⟩
    rw [h.sqliteAppend_eq hvalid hsort, insert_of_not_encodable (encodable_nextVersionId es.length)
      h.encodable_head hrow]
    rfl

end Agrees

/-! ### Runs -/

variable (P) in
/-- A store of each backend, with what they have replied, the entries that `append` has returned and the
head that each of them found, and what the last `append` or `rollback` returned. -/
structure Watched where
  json : Option Bytes
  sqlite : Tables P
  replies : List (Reply P × Reply P)
  appended : List (VersionedMemoryEntry P)
  heads : List (Option Str)
  target : Option (VersionedMemoryEntry P)

namespace Watched

def new : Watched P :=
  ⟨none, .init, [], [], [], none⟩

def note (w : Watched P) : Call P → Reply P → Watched P
  | .append _ _ _, .entry e =>
    { w with
      appended := w.appended ++ [e.sorted]
      heads := w.heads ++ [w.target.map (·.versionId)]
      target := some e.sorted }
  | .rollback _, .entry e => { w with target := some e }
  | _, _ => w

def step (F : Conversions P) (w : Watched P) (call : Call P) : Watched P :=
  let json := jsonCall F w.json call
  let sqlite := sqliteCall w.sqlite call
  { w.note call json.1 with
    json := json.2
    sqlite := sqlite.2
    replies := w.replies ++ [(json.1, sqlite.1)] }

end Watched

/-- What both stores are for. -/
structure Sound (F : Conversions P) (w : Watched P) : Prop where
  /-- The replies are equal. -/
  replies : ∀ r ∈ w.replies, r.1 = r.2
  /-- The history is what has been appended, in order. -/
  history : ∀ ascending,
    jsonIterHistory F w.json ascending = .ok (if ascending then w.appended else w.appended.reverse) ∧
      sqliteIterHistory w.sqlite ascending =
        .ok (if ascending then w.appended else w.appended.reverse)
  /-- The current entry is the one that was last appended or rolled back to. -/
  current : jsonCurrent F w.json = .ok w.target ∧ sqliteCurrent w.sqlite = .ok w.target
  /-- The versions are numbered in order. -/
  versions : w.appended.map (·.versionId) = (List.range w.appended.length).map nextVersionId
  distinct : (w.appended.map (·.versionId)).Nodup
  /-- The parent of an entry is the head that was there. -/
  parents : w.appended.map (·.parentVersionId) = w.heads

/-- A version that is asked for can be encoded. -/
def Call.Named : Call P → Prop
  | .rollback versionId => Encodable versionId
  | .getVersion versionId => Encodable versionId
  | _ => True

/-- Both stores have what has been appended, and have replied the same. -/
structure Kept (w : Watched P) : Prop where
  agrees : Agrees w.appended w.target w.json w.sqlite
  replies : ∀ r ∈ w.replies, r.1 = r.2
  parents : w.appended.map (·.parentVersionId) = w.heads

namespace Kept

variable {w : Watched P} {call : Call P}

theorem new : Kept (.new : Watched P) :=
  ⟨.empty, List.forall_mem_nil _, rfl⟩

theorem sound (h : Kept w) : Sound F w :=
  ⟨h.replies, h.agrees.history F, h.agrees.current F, h.agrees.versions, h.agrees.nodup, h.parents⟩

theorem unchanged (h : Kept w) {r : Reply P} (hnote : w.note call r = w)
    (hjson : jsonCall F w.json call = (r, w.json)) (hsqlite : sqliteCall w.sqlite call = (r, w.sqlite)) :
    Kept (w.step F call) := by
  unfold Watched.step
  rw [hjson, hsqlite]
  dsimp only
  rw [hnote]
  exact ⟨h.agrees, List.forall_mem_append.mpr ⟨h.replies, List.forall_mem_singleton.mpr rfl⟩, h.parents⟩

theorem refused (h : Kept w) {payload : Payload P} {confidence : Confidence P} {now : Str} {e : Exc}
    (hjson : jsonAppend w.json payload.items confidence.value now = .error e)
    (hsqlite : sqliteAppend w.sqlite payload.items confidence.value now = .error (.raised e)) :
    Kept (w.step F (.append payload confidence now)) := by
  refine h.unchanged F (r := .raised (.raised e)) rfl ?_ ?_
  · unfold jsonCall
    dsimp only
    rw [hjson]
    rfl
  · unfold sqliteCall
    dsimp only
    rw [hsqlite]
    rfl

theorem step_append (h : Kept w) (payload : Payload P) (confidence : Confidence P) (now : Str) :
    Kept (w.step F (.append payload confidence now)) := by
  cases hvalid : invalidConfidence confidence.value with
  | true =>
    refine h.refused F (e := .valueError (str "invalid_confidence")) ?_ ?_
    · unfold jsonAppend
      exact if_pos hvalid
    · unfold sqliteAppend
      exact if_pos hvalid
  | false =>
    by_cases hencodable : Encodable (Value.dict payload.items).chars ∧ Encodable now
    · obtain ⟨file, t, hjson, hsqlite, hagrees⟩ := h.agrees.append hvalid hencodable.1 hencodable.2
      have hparents := h.parents
      unfold Watched.step jsonCall sqliteCall
      dsimp only
      rw [hjson, hsqlite]
      refine ⟨hagrees, List.forall_mem_append.mpr ⟨h.replies, List.forall_mem_singleton.mpr rfl⟩, ?_⟩
      exact (List.map_append ..).trans (congrArg (· ++ [w.target.map (·.versionId)]) hparents)
    · obtain ⟨hjson, hsqlite⟩ := h.agrees.append_of_not_encodable hvalid hencodable
      exact h.refused F hjson hsqlite

theorem step_rollback (h : Kept w) {versionId : Str} (hid : Encodable versionId) :
    Kept (w.step F (.rollback versionId)) := by
  cases hfind : w.appended.find? fun e => decide (e.versionId = versionId) with
  | none =>
    refine h.unchanged F (r := .raised (.raised (.valueError (str "unknown_version_id")))) rfl ?_ ?_
    · unfold jsonCall
      dsimp only
      rw [h.agrees.rollback_of_find_none F hfind]
      rfl
    · unfold sqliteCall
      dsimp only
      rw [h.agrees.sqliteRollback_of_find_none hid hfind]
      rfl
  | some e =>
    have hmem := List.mem_of_find?_eq_some hfind
    obtain rfl : e.versionId = versionId := of_decide_eq_true (List.find?_some hfind :)
    obtain ⟨file, hjson, hsqlite, hagrees⟩ := h.agrees.rollback F hmem
    unfold Watched.step jsonCall sqliteCall
    dsimp only
    rw [hjson, hsqlite]
    exact ⟨hagrees, List.forall_mem_append.mpr ⟨h.replies, List.forall_mem_singleton.mpr rfl⟩, h.parents⟩

theorem step (h : Kept w) (hnamed : call.Named) : Kept (w.step F call) := by
  cases call with
  | append payload confidence now => exact h.step_append F payload confidence now
  | rollback versionId => exact h.step_rollback F hnamed
  | current =>
    obtain ⟨hjson, hsqlite⟩ := h.agrees.current F
    refine h.unchanged F (r := .found w.target) rfl ?_ ?_
    · unfold jsonCall
      dsimp only
      rw [hjson]
      rfl
    · unfold sqliteCall
      dsimp only
      rw [hsqlite]
      rfl
  | getVersion versionId =>
    refine h.unchanged F (r := .found (w.appended.find? fun e => e.versionId = versionId)) rfl ?_ ?_
    · unfold jsonCall
      dsimp only
      rw [h.agrees.getVersion F]
      rfl
    · unfold sqliteCall
      dsimp only
      rw [h.agrees.sqliteGetVersion hnamed]
      rfl
  | iterHistory ascending =>
    obtain ⟨hjson, hsqlite⟩ := h.agrees.history F ascending
    refine h.unchanged F
      (r := .history (if ascending then w.appended else w.appended.reverse)) rfl ?_ ?_
    · unfold jsonCall
      dsimp only
      rw [hjson]
      rfl
    · unfold sqliteCall
      dsimp only
      rw [hsqlite]
      rfl

theorem named_of_sound (h : Kept w) (hsound : Sound F (w.step F call)) : call.Named := by
  have hreply : (jsonCall F w.json call).1 = (sqliteCall w.sqlite call).1 :=
    hsound.replies _ (List.mem_append_right _ (List.mem_singleton_self _))
  cases call with
  | append | current | iterHistory => trivial
  | rollback versionId =>
    by_contra hid
    unfold jsonCall sqliteCall sqliteRollback at hreply
    dsimp only at hreply
    rw [h.agrees.rollback_of_find_none F (h.agrees.find_of_not_encodable hid),
      Agrees.sqliteGetVersion_of_not_encodable _ hid] at hreply
    cases hreply
  | getVersion versionId =>
    by_contra hid
    unfold jsonCall sqliteCall at hreply
    dsimp only at hreply
    rw [h.agrees.getVersion F, Agrees.sqliteGetVersion_of_not_encodable _ hid] at hreply
    cases hreply

end Kept

/-- Two stores that begin empty reply the same to all calls, and keep every entry, the order of the
versions and the head, exactly when the versions that are asked for can be encoded. -/
theorem always_sound_iff (F : Conversions P) (calls : List (Call P)) :
    Run.Always (Watched.step F) (Sound F) .new calls ↔ ∀ call ∈ calls, call.Named := by
  have hmeets : Run.Always (Watched.step F) (Sound F) .new calls ↔
      Run.Meets (Watched.step F) (fun _ call => call.Named) .new calls :=
    Run.always_iff_meets_of_kept (fun _ h => h.sound F) (fun _ _ h hnamed => h.step F hnamed)
      (fun _ _ h hsound => h.named_of_sound F hsound) Kept.new
  exact hmeets.trans Run.meets_iff_forall

def storedConversions : Conversions reference where
  float
    | .float x => .ok x
    | _ => .error .typeError
  float_float _ := rfl
  equal
    | .str s, .str t => s = t
    | _, _ => false
  equal_str _ _ := rfl

/-- An empty JSON store does not know the version, and an empty SQL store cannot encode it. -/
theorem not_always_sound :
    ¬ Run.Always (Watched.step storedConversions) (Sound storedConversions) .new
      [.getVersion [0xD800]] := by
  rintro ⟨-, hsound⟩
  have hreply := hsound.replies (.found none, .raised (.raised .unicodeEncodeError))
    (List.mem_singleton_self _)
  cases hreply

end Adaad.Memory
