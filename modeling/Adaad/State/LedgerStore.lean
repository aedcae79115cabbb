import Adaad.Evolution.AgmEvent
import Adaad.Governance.Foundation
import Adaad.Py.Json.Loads

/-!
# The scoring ledger store

`runtime/state/ledger_store.py`: signed events in a chain of records, kept as JSON rows in a file
with a sidecar that holds the last hash, or as rows of a table.
-/

namespace Adaad.LedgerStore

open Py EventSigning AgmEvent

/-- `_ZERO_HASH` -/
def zeroHash : Str := str "sha256:" ++ List.replicate 64 48

inductive StoreError where
  | raised (e : Exc)
  /-- `sqlite3.IntegrityError` -/
  | integrityError
  deriving DecidableEq, Repr

def raising {α : Type} (x : Except Exc α) : Except StoreError α :=
  x.mapError .raised

variable (P : Platform)

/-! ### Records -/

variable {P}

/-- The record of an event after a record with the hash, without its own. -/
def recordOf (e : AGMEventEnvelope P) (prevHash : Str) : Members P.Float :=
  [(.str (str "event"), .dict e.asDict), (.str (str "prev_hash"), .str prevHash),
    (.str (str "signature"), .str e.signature), (.str (str "signing_key_id"), .str e.signingKeyId),
    (.str (str "signature_algorithm"), .str e.signatureAlgorithm)]

/-- `sha256_prefixed_digest(canonical_json(record))` -/
def recordHash (e : AGMEventEnvelope P) (prevHash : Str) : Except Exc Str := do
  let text ← canonicalJson P (.dict (recordOf e prevHash))
  digestOf P text

def fullRecord (e : AGMEventEnvelope P) (prevHash hash : Str) : Members P.Float :=
  recordOf e prevHash ++ [(.str (str "record_hash"), .str hash)]

/-- `canonical_event_content` -/
def canonicalEventContent (e : AGMEventEnvelope P) : Except Exc Str :=
  canonicalJson P (.dict (e.asDict.take 5))

def lastHashOf (records : List (Members P.Float)) : Str :=
  records.foldl (fun last record =>
    match get record (str "record_hash") with
    | some (.str s) => s
    | _ => last) zeroHash

/-! ### The JSON file -/

/-- The ledger and its sidecar. -/
structure JsonFiles where
  ledger : Bytes
  sidecar : Option Bytes

def JsonFiles.fresh : JsonFiles := ⟨[], none⟩

variable (P) in
/-- `_iter_json_records` -/
def JsonFiles.iterRecords (f : JsonFiles) : Except Exc (List (Members P.Float)) := do
  let rows ← readRows P strip f.ledger
  return rows.filterMap Value.members?

variable (P) in
/-- The content of a sidecar, and `int`s that are a `bool`. -/
def tailOf : P.Obj → Option (Str × Int)
  | .dict payload =>
    match get payload (str "record_hash"), get payload (str "entries") with
    | some (.str hash), some (.int n) => if n < 0 then none else some (hash, n)
    | some (.str hash), some (.bool b) => some (hash, if b then 1 else 0)
    | _, _ => none
  | _ => none

variable (P) in
/-- `_read_tail_sidecar` -/
def JsonFiles.readTailSidecar (f : JsonFiles) : Except Exc (Option (Str × Int)) :=
  match f.sidecar with
  | none => .ok none
  | some file =>
    match readText file with
    | .error e => .error e
    | .ok text => .ok ((loads P text).bind (tailOf P))

variable (P) in
/-- `_write_tail_sidecar` -/
def JsonFiles.writeTailSidecar (f : JsonFiles) (recordHash : Str) (entries : Int) :
    Except Exc JsonFiles := do
  let text ← canonicalJson P
    (.dict [(.str (str "record_hash"), .str recordHash), (.str (str "entries"), .int entries)])
  let file ← writeText (text ++ [lf])
  return { f with sidecar := some file }

/-- The loop of `_read_last_record_hash_fast` over the bytes from the end: the bytes of the last
line that is not empty. -/
def scanBack : Bytes → Bytes → Bytes
  | [], buffer => buffer
  | b :: bs, buffer =>
    if b = 10 then if buffer = [] then scanBack bs buffer else buffer
    else scanBack bs (b :: buffer)

variable (P) in
/-- `_read_last_record_hash_fast` -/
def JsonFiles.readLastRecordHashFast (f : JsonFiles) : Option Str :=
  let buffer := scanBack f.ledger.reverse []
  if buffer = [] then some zeroHash
  else
    match (decode buffer).bind (loads P) with
    | some (.dict payload) =>
      match get payload (str "record_hash") with
      | some (.str hash) => some hash
      | _ => none
    | _ => none

variable (P) in
/-- `_rebuild_tail_sidecar` -/
def JsonFiles.rebuildTailSidecar (f : JsonFiles) : Except Exc ((Str × Int) × JsonFiles) := do
  let records ← f.iterRecords P
  let f ← f.writeTailSidecar P (lastHashOf records) records.length
  return ((lastHashOf records, records.length), f)

variable (P) in
/-- `_resolve_json_tail` -/
def JsonFiles.resolveJsonTail (f : JsonFiles) : Except Exc ((Str × Int) × JsonFiles) := do
  match ← f.readTailSidecar P with
  | none => f.rebuildTailSidecar P
  | some cached =>
    match f.readLastRecordHashFast P with
    | none => f.rebuildTailSidecar P
    | some fastHash => if cached.1 ≠ fastHash then f.rebuildTailSidecar P else return (cached, f)

/-! ### The table -/

structure TableRow where
  eventJson : Str
  prevHash : Str
  recordHash : Str
  signature : Str
  signingKeyId : Str
  signatureAlgorithm : Str
  deriving DecidableEq

variable (P) in
def TableRow.record (r : TableRow) : Except Exc (Members P.Float) :=
  match loads P r.eventJson with
  | none => .error .jsonDecodeError
  | some event => .ok [(.str (str "event"), event), (.str (str "prev_hash"), .str r.prevHash),
      (.str (str "record_hash"), .str r.recordHash), (.str (str "signature"), .str r.signature),
      (.str (str "signing_key_id"), .str r.signingKeyId),
      (.str (str "signature_algorithm"), .str r.signatureAlgorithm)]

variable (P) in
def iterTable (table : List TableRow) : Except Exc (List (Members P.Float)) :=
  table.mapM (TableRow.record P)

/-- `INSERT`: the record hashes are unique. -/
def insertRow (table : List TableRow) (r : TableRow) : Except StoreError (List TableRow) :=
  if r.recordHash ∈ table.map TableRow.recordHash then .error .integrityError
  else .ok (table ++ [r])

/-! ### `append_event` -/

/-- What a caller gets: the record, an exception, or nothing, where the process stops before it
returns. -/
inductive Outcome (P : Platform) where
  | returned (record : Members P.Float)
  | raised (e : StoreError)
  | stopped

/-- The checks that `append_event` starts with. -/
def acceptEvent (d : Digits P) (V : EventVerifier) (e : AGMEventEnvelope P) : Except Exc Unit :=
  match validateEventEnvelope d e with
  | .error message => .error (.valueError (str "invalid_event_envelope:" ++ message))
  | .ok () => do
    let content ← canonicalEventContent e
    if V content e.bundle then return () else throw (.valueError (str "invalid_event_signature"))

def ledgerLine (record : Members P.Float) : Except Exc Bytes :=
  match dumpsSorted P .spaced (.dict record) with
  | none => .error .typeError
  | some t => writeText (t ++ [lf])

/-- `append_event` of the `json` backend, until the ledger line is written: the hash of the record
before and its own, and the number of entries before. -/
def writeLine (d : Digits P) (V : EventVerifier) (f : JsonFiles) (e : AGMEventEnvelope P) :
    Except Exc ((Str × Str × Int) × JsonFiles) := do
  acceptEvent d V e
  let tail ← f.resolveJsonTail P
  let hash ← recordHash e tail.1.1
  let line ← ledgerLine (fullRecord e tail.1.1 hash)
  return ((tail.1.1, hash, tail.1.2), { tail.2 with ledger := tail.2.ledger ++ line })

/-- What `_resolve_json_tail` has done to the files, where `append_event` raises after it. -/
def resolved (d : Digits P) (V : EventVerifier) (f : JsonFiles) (e : AGMEventEnvelope P) :
    JsonFiles :=
  match (do acceptEvent d V e; f.resolveJsonTail P : Except Exc ((Str × Int) × JsonFiles)) with
  | .error _ => f
  | .ok r => r.2

/-- `append_event` of the `json` backend; the process may stop before it writes the sidecar. -/
def appendJson (d : Digits P) (V : EventVerifier) (f : JsonFiles) (e : AGMEventEnvelope P)
    (stops : Bool) : Outcome P × JsonFiles :=
  match writeLine d V f e with
  | .error x => (.raised (.raised x), resolved d V f e)
  | .ok ((prevHash, hash, entries), f) =>
    if stops then (.stopped, f)
    else
      match f.writeTailSidecar P hash (entries + 1) with
      | .error x => (.raised (.raised x), f)
      | .ok f => (.returned (fullRecord e prevHash hash), f)

/-- `append_event` of the `sqlite` backend until the row is written: the hash of the record before
and its own. -/
def writeRow (d : Digits P) (V : EventVerifier) (table : List TableRow) (e : AGMEventEnvelope P) :
    Except StoreError ((Str × Str) × List TableRow) := do
  raising (acceptEvent d V e)
  let records ← raising (iterTable P table)
  let prevHash := lastHashOf records
  let hash ← raising (recordHash e prevHash)
  let eventJson ← raising (canonicalJson P (.dict e.asDict))
  let table ← insertRow table {
    eventJson := eventJson
    prevHash := prevHash
    recordHash := hash
    signature := e.signature
    signingKeyId := e.signingKeyId
    signatureAlgorithm := e.signatureAlgorithm }
  return ((prevHash, hash), table)

/-- `append_event` of the `sqlite` backend; the process may stop before it returns. -/
def appendTable (d : Digits P) (V : EventVerifier) (table : List TableRow) (e : AGMEventEnvelope P)
    (stops : Bool) : Outcome P × List TableRow :=
  match writeRow d V table e with
  | .error x => (.raised x, table)
  | .ok ((prevHash, hash), table) =>
    (if stops then .stopped else .returned (fullRecord e prevHash hash), table)

/-! ### `verify_chain` -/

/-- What `verify_chain` returns. -/
inductive Report where
  | intact (count : Nat) (tipHash : Str)
  | broken (index : Nat) (error : Str)
  deriving DecidableEq

/-- `str(obj.get(key, ""))` -/
def textAt (obj : Members P.Float) (key : Str) : Str :=
  toStr P ((get obj key).getD (.str []))

/-- The envelope of a record's event, as `verify_chain` rebuilds it. -/
def envelopeOf (event : Members P.Float) : Except Exc (AGMEventEnvelope P) := do
  let payload ← dictOfValue P ((orElse P (get event (str "payload")) (some (.dict []))).getD (.dict []))
  return {
    schemaVersion := textAt event (str "schema_version")
    eventId := textAt event (str "event_id")
    eventType := textAt event (str "event_type")
    emittedAt := textAt event (str "emitted_at")
    -- a list of JSON has no pair whose key is a tuple
    payload := payload.getD []
    signature := textAt event (str "signature")
    signingKeyId := textAt event (str "signing_key_id")
    signatureAlgorithm := textAt event (str "signature_algorithm") }

/-- The envelope, if it is valid: `none` is a `ValueError`, which is reported. -/
def validEnvelope (d : Digits P) (event : Members P.Float) :
    Except Exc (Option (AGMEventEnvelope P)) :=
  match envelopeOf event with
  | .error (.valueError _) => .ok none
  | .error x => .error x
  | .ok e =>
    match validateEventEnvelope d e with
    | .error _ => .ok none
    | .ok () => .ok (some e)

/-- One record of `verify_chain`: its hash, or what is wrong with it. -/
def verifyRecord (d : Digits P) (V : EventVerifier) (expectedPrev : Str) (record : Members P.Float) :
    Except Exc (Except Str Str) :=
  match get record (str "prev_hash") with
  | some (.str observedPrev) =>
    if observedPrev ≠ expectedPrev then .ok (.error (str "prev_hash_mismatch"))
    else
      match get record (str "event") with
      | some (.dict event) => do
        match ← validEnvelope d event with
        | none => return .error (str "invalid_event_envelope")
        | some e =>
          let content ← canonicalEventContent e
          if V content e.bundle then
            let expectedHash ← recordHash e observedPrev
            match get record (str "record_hash") with
            | some (.str hash) =>
              if hash = expectedHash then return .ok expectedHash
              else return .error (str "record_hash_mismatch")
            | _ => return .error (str "record_hash_mismatch")
          else return .error (str "signature_invalid")
      | _ => .ok (.error (str "invalid_event_payload"))
  | _ => .ok (.error (str "prev_hash_mismatch"))

/-- The loop of `verify_chain`. -/
def verifyRecords (d : Digits P) (V : EventVerifier) : Nat → Str → List (Members P.Float) →
    Except Exc Report
  | index, expectedPrev, [] => .ok (.intact index expectedPrev)
  | index, expectedPrev, record :: records => do
    match ← verifyRecord d V expectedPrev record with
    | .error error => return .broken index error
    | .ok hash => verifyRecords d V (index + 1) hash records

/-- `verify_chain` of the `json` backend: it writes the sidecar of a chain that is intact. -/
def verifyJson (d : Digits P) (V : Option EventVerifier) (f : JsonFiles) :
    Except Exc (Report × JsonFiles) :=
  match V with
  | none => .ok (.broken 0 (str "signature_verifier_missing"), f)
  | some V => do
    let records ← f.iterRecords P
    match ← verifyRecords d V 0 zeroHash records with
    | .intact count tipHash =>
      let f ← f.writeTailSidecar P tipHash records.length
      return (.intact count tipHash, f)
    | report => return (report, f)

/-- `verify_chain` of the `sqlite` backend. -/
def verifyTable (d : Digits P) (V : Option EventVerifier) (table : List TableRow) :
    Except Exc Report :=
  match V with
  | none => .ok (.broken 0 (str "signature_verifier_missing"))
  | some V => do
    let records ← iterTable P table
    verifyRecords d V 0 zeroHash records

end Adaad.LedgerStore
