import Adaad.Governance.Foundation
import Adaad.Py.Json.Loads

/-!
# The versioned store

`memory/versionedstore.py`: entries are appended, and a head that `rollback` moves is one of them.  One
backend has all of it in a JSON document that it writes anew each time, the other in two SQL tables.

The document has no indentation here, which is not read.  A row of a table comes after those before it
in the list, which is what `seq` says, and the two zeros of a `float` are not told apart.
-/

namespace Adaad.Memory

open Py

variable (P : Platform)

/-! ### Data -/

/-- What a store needs of the runtime for values that it has not written. -/
structure Conversions where
  /-- `float(v)` -/
  float : P.Obj → Except Exc P.Float
  float_float : ∀ x, float (.float x) = .ok x
  /-- `v == w` -/
  equal : P.Obj → P.Obj → Bool
  equal_str : ∀ s t, equal (.str s) (.str t) = decide (s = t)

/-- `VersionedMemoryEntry` -/
structure VersionedMemoryEntry where
  versionId : Str
  parentVersionId : Option Str
  createdAt : Str
  payload : Members P.Float
  confidence : P.Float

variable {P}

/-- A text, or `None`. -/
def textOrNone : Option Str → P.Obj
  | some s => .str s
  | none => .none

/-- `as_dict` -/
def VersionedMemoryEntry.asDict (e : VersionedMemoryEntry P) : P.Obj :=
  .dict
    [(.str (str "version_id"), .str e.versionId),
     (.str (str "parent_version_id"), textOrNone e.parentVersionId),
     (.str (str "created_at"), .str e.createdAt),
     (.str (str "payload"), .dict e.payload),
     (.str (str "confidence"), .float e.confidence)]

/-- `_next_version_id` -/
def nextVersionId (count : Nat) : Str :=
  118 :: paddedText 8 (count + 1)

/-- A confidence that `append` refuses. -/
def invalidConfidence (confidence : P.Float) : Bool :=
  P.numLt (.inr confidence) (.inl 0) || P.numLt (.inl 1) (.inr confidence)

/-! ### The JSON backend -/

variable (P) in
/-- The document of a store, as it is read. -/
structure JsonState where
  schemaVersion : Str
  headVersionId : P.Obj
  entries : List P.Obj

def JsonState.empty : JsonState P :=
  ⟨str "1", .none, []⟩

def JsonState.asDict (s : JsonState P) : P.Obj :=
  .dict
    [(.str (str "schema_version"), .str s.schemaVersion),
     (.str (str "head_version_id"), s.headVersionId),
     (.str (str "entries"), .list s.entries)]

variable (P) in
/-- `_read_json_state` -/
def readJsonState (file : Option Bytes) : Except Exc (JsonState P) :=
  match file with
  | none => .ok .empty
  | some file => do
    let text ← readText file
    match loads P text with
    | some (.dict payload) =>
      let entries :=
        match get payload (str "entries") with
        | some (.list entries) => entries
        | _ => []
      .ok
        { schemaVersion := ((get payload (str "schema_version")).map (toStr P)).getD (str "1")
          headVersionId := (get payload (str "head_version_id")).getD .none
          entries := entries }
    | _ => .ok .empty

/-- `_write_json_state_atomic` -/
def writeJsonStateAtomic (state : JsonState P) : Except Exc Bytes := do
  let serialized ← canonicalJson P state.asDict
  writeText serialized

/-- `None if v is None else str(v)` -/
def strOrNone : P.Obj → Option Str
  | .none => none
  | v => some (toStr P v)

/-- `_entry_from_dict`; the keys of a `dict` that is made of JSON are no tuples. -/
def entryFromDict (F : Conversions P) (raw : Members P.Float) : Except Exc (VersionedMemoryEntry P) := do
  let payload ← dictOfValue P ((orElse P (get raw (str "payload")) (some (.dict []))).getD .none)
  let confidence ← ((get raw (str "confidence")).map F.float).getD (.ok (P.floatOf (.lit
    ⟨false, [48], [48], none⟩)))
  return {
    versionId := ((get raw (str "version_id")).map (toStr P)).getD []
    parentVersionId := (get raw (str "parent_version_id")).bind strOrNone
    createdAt := ((get raw (str "created_at")).map (toStr P)).getD []
    payload := payload.getD []
    confidence := confidence }

/-- The first entry that is a mapping with this `version_id`. -/
def findEntry (F : Conversions P) (entries : List P.Obj) (versionId : P.Obj) :
    Except Exc (Option (VersionedMemoryEntry P)) :=
  let raws := entries.filterMap Value.members?
  match raws.find? fun raw => F.equal ((get raw (str "version_id")).getD .none) versionId with
  | some raw => some <$> entryFromDict F raw
  | none => .ok none

/-- `append` -/
def jsonAppend (file : Option Bytes) (payload : Members P.Float) (confidence : P.Float) (now : Str) :
    Except Exc (VersionedMemoryEntry P × Bytes) :=
  if invalidConfidence confidence then .error (.valueError (str "invalid_confidence"))
  else do
    let state ← readJsonState P file
    let entry : VersionedMemoryEntry P :=
      { versionId := nextVersionId state.entries.length
        parentVersionId := strOrNone state.headVersionId
        createdAt := now
        payload := payload
        confidence := confidence }
    let file ← writeJsonStateAtomic
      { state with
        entries := state.entries ++ [entry.asDict]
        headVersionId := .str entry.versionId }
    return (entry, file)

/-- `get_version` -/
def jsonGetVersion (F : Conversions P) (file : Option Bytes) (versionId : Str) :
    Except Exc (Option (VersionedMemoryEntry P)) := do
  let state ← readJsonState P file
  findEntry F state.entries (.str versionId)

/-- `rollback` -/
def jsonRollback (F : Conversions P) (file : Option Bytes) (versionId : Str) :
    Except Exc (VersionedMemoryEntry P × Bytes) := do
  match ← jsonGetVersion F file versionId with
  | none => .error (.valueError (str "unknown_version_id"))
  | some target =>
    let state ← readJsonState P file
    let file ← writeJsonStateAtomic { state with headVersionId := .str target.versionId }
    return (target, file)

/-- `current` -/
def jsonCurrent (F : Conversions P) (file : Option Bytes) :
    Except Exc (Option (VersionedMemoryEntry P)) := do
  let state ← readJsonState P file
  match state.headVersionId with
  | .none => return none
  | head => findEntry F state.entries head

/-- `iter_history` -/
def jsonIterHistory (F : Conversions P) (file : Option Bytes) (ascending : Bool) :
    Except Exc (List (VersionedMemoryEntry P)) := do
  let state ← readJsonState P file
  let entries ← (state.entries.filterMap Value.members?).mapM (entryFromDict F)
  return if ascending then entries else entries.reverse

/-! ### The SQL backend -/

variable (P) in
/-- A row of `memory_entries`. -/
structure Row where
  versionId : Str
  parentVersionId : Option Str
  createdAt : Str
  payloadJson : Str
  confidence : P.Float

variable (P) in
/-- The two tables. -/
structure Tables where
  memoryEntries : List (Row P)
  headVersionId : Option Str

/-- `_init_sqlite` on a new file. -/
def Tables.init : Tables P :=
  ⟨[], none⟩

/-- What a call raises. -/
inductive StoreError where
  | raised (e : Exc)
  /-- `sqlite3.IntegrityError` -/
  | integrityError
  deriving DecidableEq, Repr

def bindText (s : Str) : Except StoreError Unit :=
  match encode s with
  | some _ => .ok ()
  | none => .error (.raised .unicodeEncodeError)

def Row.entry (row : Row P) : Except StoreError (VersionedMemoryEntry P) :=
  match loads P row.payloadJson with
  | none => .error (.raised .jsonDecodeError)
  | some v => do
    let payload ← (dictOfValue P v).mapError .raised
    return {
      versionId := row.versionId
      parentVersionId := row.parentVersionId
      createdAt := row.createdAt
      payload := payload.getD []
      confidence := row.confidence }

def Tables.row (t : Tables P) (versionId : Str) : Option (Row P) :=
  t.memoryEntries.find? fun row => row.versionId = versionId

/-- `INSERT INTO memory_entries`: a NaN is bound as `NULL`, which is not allowed, and the version is unique. -/
def Tables.insert (t : Tables P) (row : Row P) : Except StoreError (Tables P) := do
  bindText row.versionId
  (row.parentVersionId.map bindText).getD (.ok ())
  bindText row.createdAt
  bindText row.payloadJson
  if P.floatText row.confidence = .nan ∨ (t.row row.versionId).isSome then .error .integrityError
  else return { t with memoryEntries := t.memoryEntries ++ [row] }

/-- `append` -/
def sqliteAppend (t : Tables P) (payload : Members P.Float) (confidence : P.Float) (now : Str) :
    Except StoreError (VersionedMemoryEntry P × Tables P) :=
  if invalidConfidence confidence then .error (.raised (.valueError (str "invalid_confidence")))
  else do
    let entry : VersionedMemoryEntry P :=
      { versionId := nextVersionId t.memoryEntries.length
        parentVersionId := t.headVersionId
        createdAt := now
        payload := payload
        confidence := confidence }
    let payloadJson ← (canonicalJson P (.dict entry.payload)).mapError .raised
    let t ← t.insert
      { versionId := entry.versionId
        parentVersionId := entry.parentVersionId
        createdAt := entry.createdAt
        payloadJson := payloadJson
        confidence := entry.confidence }
    return (entry, { t with headVersionId := some entry.versionId })

/-- The entry of the row that `fetchone` returns. -/
def fetchEntry : Option (Row P) → Except StoreError (Option (VersionedMemoryEntry P))
  | some row => some <$> row.entry
  | none => .ok none

/-- `get_version` -/
def sqliteGetVersion (t : Tables P) (versionId : Str) :
    Except StoreError (Option (VersionedMemoryEntry P)) := do
  bindText versionId
  fetchEntry (t.row versionId)

/-- `rollback` -/
def sqliteRollback (t : Tables P) (versionId : Str) :
    Except StoreError (VersionedMemoryEntry P × Tables P) := do
  match ← sqliteGetVersion t versionId with
  | none => .error (.raised (.valueError (str "unknown_version_id")))
  | some target =>
    bindText target.versionId
    return (target, { t with headVersionId := some target.versionId })

/-- `current` -/
def sqliteCurrent (t : Tables P) : Except StoreError (Option (VersionedMemoryEntry P)) :=
  fetchEntry (t.headVersionId.bind t.row)

/-- `iter_history` -/
def sqliteIterHistory (t : Tables P) (ascending : Bool) :
    Except StoreError (List (VersionedMemoryEntry P)) :=
  (if ascending then t.memoryEntries else t.memoryEntries.reverse).mapM Row.entry

/-! ### Runs -/

variable (P) in
/-- A payload: a `dict` of JSON data. -/
structure Payload where
  items : Members P.Float
  plain : (Value.dict items).Plain
  wf : (Value.dict items).WF

variable (P) in
/-- A confidence: any number. -/
structure Confidence where
  value : P.Float
  isNumber : P.floatText value ≠ .nan

variable (P) in
/-- A call, with the time that the clock would give it. -/
inductive Call where
  | append (payload : Payload P) (confidence : Confidence P) (now : Str)
  | rollback (versionId : Str)
  | current
  | getVersion (versionId : Str)
  | iterHistory (ascending : Bool)

variable (P) in
/-- What a call returns or raises. -/
inductive Reply where
  | entry (e : VersionedMemoryEntry P)
  | found (e : Option (VersionedMemoryEntry P))
  | history (entries : List (VersionedMemoryEntry P))
  | raised (e : StoreError)

def readReply {S α : Type} (store : S) (reply : α → Reply P) : Except StoreError α → Reply P × S
  | .ok a => (reply a, store)
  | .error e => (.raised e, store)

/-- A call that writes; where it raises, nothing is written. -/
def writeReply {S : Type} (store : S) :
    Except StoreError (VersionedMemoryEntry P × S) → Reply P × S
  | .ok (e, store) => (.entry e, store)
  | .error e => (.raised e, store)

def jsonCall (F : Conversions P) (file : Option Bytes) : Call P → Reply P × Option Bytes
  | .append payload confidence now =>
    writeReply file (((jsonAppend file payload.items confidence.value now).mapError .raised).map
      fun r => (r.1, some r.2))
  | .rollback versionId =>
    writeReply file (((jsonRollback F file versionId).mapError .raised).map fun r => (r.1, some r.2))
  | .current => readReply file .found ((jsonCurrent F file).mapError .raised)
  | .getVersion versionId => readReply file .found ((jsonGetVersion F file versionId).mapError .raised)
  | .iterHistory ascending =>
    readReply file .history ((jsonIterHistory F file ascending).mapError .raised)

def sqliteCall (t : Tables P) : Call P → Reply P × Tables P
  | .append payload confidence now => writeReply t (sqliteAppend t payload.items confidence.value now)
  | .rollback versionId => writeReply t (sqliteRollback t versionId)
  | .current => readReply t .found (sqliteCurrent t)
  | .getVersion versionId => readReply t .found (sqliteGetVersion t versionId)
  | .iterHistory ascending => readReply t .history (sqliteIterHistory t ascending)

end Adaad.Memory
