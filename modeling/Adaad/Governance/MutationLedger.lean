import Adaad.Evolution.AgmEvent
import Adaad.Py.Assoc
import Adaad.Py.Json.Loads

/-!
# The mutation ledger

`runtime/governance/mutation_ledger.py`: signed entries in an append-only file of JSON rows, each
with the hash of the row before.  In production the whole chain is checked before an entry is
appended.
-/

namespace Adaad.Governance.Ledger

open Py EventSigning

def genesisPrevHash : Str := str "sha256:" ++ List.replicate 64 48

inductive LedgerError where
  | raised (e : Exc)
  | overflowError
  deriving DecidableEq, Repr

/-- An exception of the runtime, as one of the ledger. -/
def raising {α : Type} (x : Except Exc α) : Except LedgerError α :=
  x.mapError .raised

variable (P : Platform)

/-! ### Numbers -/

/-- What is made of texts and of a `float` where a number is asked for. -/
structure Numbers where
  letters : Letters P
  /-- `int(x)` -/
  truncate : P.Float → Except LedgerError Int
  /-- `float(text)`; `none` is a `ValueError`. -/
  ofText : Str → Option P.Float

variable {P}

/-- `int(v)` -/
def Numbers.toInt (n : Numbers P) : P.Obj → Except LedgerError Int
  | .int i => .ok i
  | .bool b => .ok (if b then 1 else 0)
  | .float x => n.truncate x
  | .str s =>
    match intOf n.letters s with
    | some i => .ok i
    | none => .error (.raised (.valueError
        (str "invalid literal for int() with base 10: " ++ P.repr (.str s))))
  | _ => .error (.raised .typeError)

/-- `math.isfinite(x)` -/
def isFinite (x : P.Float) : Bool :=
  match P.floatText x with
  | .lit _ => true
  | _ => false

/-- `float(v)` -/
def Numbers.toFloat (n : Numbers P) : P.Obj → Except LedgerError P.Float
  | .float x => .ok x
  | .int i =>
    let x := P.floatOf (.lit (NumLit.ofInt i))
    if isFinite x then .ok x else .error .overflowError
  | .bool b => .ok (P.floatOf (.lit (NumLit.ofInt (if b then 1 else 0))))
  | .str s =>
    match n.ofText s with
    | some x => .ok x
    | none => .error (.raised (.valueError
        (str "could not convert string to float: " ++ P.repr (.str s))))
  | _ => .error (.raised .typeError)

/-! ### Entries -/

variable (P) in
/-- The value of a metric. -/
abbrev Metric := Int ⊕ P.Float

def Metric.value : Metric P → P.Obj
  | .inl i => .int i
  | .inr x => .float x

variable (P) in
structure LedgerEntry where
  variantId : Str
  seed : Int
  metrics : List (Str × Metric P)
  promoted : Bool
  distinct : (Assoc.keys metrics).Nodup

def metricItems (metrics : List (Str × Metric P)) : Members P.Float :=
  metrics.map fun m => (.str m.1, m.2.value)

def LedgerEntry.items (e : LedgerEntry P) : Members P.Float :=
  [(.str (str "variant_id"), .str e.variantId), (.str (str "seed"), .int e.seed),
    (.str (str "metrics"), .dict (metricItems e.metrics)), (.str (str "promoted"), .bool e.promoted)]

/-- `json.dumps(value, sort_keys=True, separators=(",", ":"))` of a mapping with string keys over
plain data. -/
def compactText (ms : Members P.Float) : Str :=
  (dumpsSortedAscii P .compact (.dict ms)).getD []

def LedgerEntry.serialized (e : LedgerEntry P) : Str :=
  compactText e.items

/-- `json.loads(entry.serialized())` -/
def LedgerEntry.reloaded (e : LedgerEntry P) : P.Obj :=
  (loads P e.serialized).getD .none

structure LedgerKeyMetadata where
  activeKeyId : Str
  trustedKeyIds : List Str
  allowedAlgorithms : List Str

def LedgerKeyMetadata.toDict (k : LedgerKeyMetadata) : Members P.Float :=
  [(.str (str "active_key_id"), .str k.activeKeyId),
    (.str (str "trusted_key_ids"), .list (k.trustedKeyIds.map .str)),
    (.str (str "allowed_algorithms"), .list (k.allowedAlgorithms.map .str))]

/-- `signature_bundle` -/
def bundleDict (b : SignatureBundle) : Members P.Float :=
  [(.str (str "signature"), .str b.signature), (.str (str "signing_key_id"), .str b.signingKeyId),
    (.str (str "algorithm"), .str b.algorithm)]

/-- `canonical_payload_hash` -/
def canonicalPayloadHash (e : LedgerEntry P) : Str :=
  str "sha256:" ++ P.sha256 ((encode e.serialized).getD [])

/-- `canonical_record_payload` -/
def canonicalRecordPayload (e : LedgerEntry P) (prevHash payloadHash : Str)
    (keyMetadata : LedgerKeyMetadata) : Str :=
  compactText [(.str (str "entry"), e.reloaded), (.str (str "prev_hash"), .str prevHash),
    (.str (str "canonical_payload_hash"), .str payloadHash),
    (.str (str "key_metadata"), .dict (keyMetadata.toDict (P := P)))]

variable (P) in
/-- `record_hash` -/
def recordHash (canonicalPayload : Str) (b : SignatureBundle) : Except LedgerError Str :=
  match encode
      (canonicalPayload ++ 124 :: (b.signature ++ 124 :: (b.signingKeyId ++ 124 :: b.algorithm)))
  with
  | none => .error (.raised .unicodeEncodeError)
  | some bytes => .ok (str "sha256:" ++ P.sha256 bytes)

/-! ### The ledger -/

variable (P) in
/-- A ledger, without its file: the verifier accepts what the signer signs. -/
structure MutationLedger where
  testMode : Bool
  signer : EventSigner
  verifier : EventVerifier
  verifies : ∀ message, verifier message (signer message) = true
  keyMetadata : LedgerKeyMetadata
  numbers : Numbers P

variable (P) in
/-- `last_hash` -/
def lastHash (file : Bytes) : Except LedgerError Str := do
  let text ← raising (readText file)
  match (filledLines text).getLast? with
  | none => return genesisPrevHash
  | some line =>
    match loads P line with
    | none => throw (.raised .jsonDecodeError)
    | some (.dict row) => return toStr P ((get row (str "hash")).getD (.str genesisPrevHash))
    | some _ => throw (.raised .attributeError)

/-- A `ValueError` about a row. -/
def rowError (index : Nat) (message : Str) : LedgerError :=
  .raised (.valueError (str "row " ++ natText index ++ str ": " ++ message))

def require (b : Bool) (index : Nat) (message : Str) : Except LedgerError Unit :=
  if b then .ok () else .error (rowError index message)

/-- `str(row.get(key, ""))` -/
def textAt (row : Members P.Float) (key : Str) : Str :=
  toStr P ((get row key).getD (.str []))

def objectAt (index : Nat) (row : Members P.Float) (key : Str) :
    Except LedgerError (Members P.Float) :=
  match get row key with
  | some (.dict ms) => .ok ms
  | _ => .error (rowError index (key ++ str " must be an object"))

/-- `{str(k): float(v) for k, v in dict(value).items()}` -/
def readMetrics (n : Numbers P) (value : P.Obj) : Except LedgerError (List (Str × Metric P)) := do
  -- a list of JSON has no pair whose key is a tuple
  let items ← raising (dictOfValue P value)
  (items.getD []).mapM fun m => do
    let x ← n.toFloat m.2
    return (toStr P (m.1.value P), .inr x)

/-- The entry of a row, as `_validate_existing_chain` rebuilds it. -/
def readEntry (n : Numbers P) (entryObj : Members P.Float) :
    Except LedgerError (LedgerEntry P) := do
  let seed ← n.toInt ((get entryObj (str "seed")).getD .none)
  let metrics ← readMetrics n ((get entryObj (str "metrics")).getD (.dict []))
  return {
    variantId := textAt entryObj (str "variant_id")
    seed := seed
    metrics := Assoc.ofItems metrics
    promoted := truthy P ((get entryObj (str "promoted")).getD .none)
    distinct := Assoc.nodup_keys_ofItems metrics }

/-- `tuple(str(x) for x in obj.get(key, []))` -/
def textsAt (obj : Members P.Float) (key : Str) : Except LedgerError (List Str) :=
  match elements P ((get obj key).getD (.list [])) with
  | none => .error (.raised .typeError)
  | some xs => .ok (xs.map (toStr P))

def readKeyMetadata (obj : Members P.Float) : Except LedgerError LedgerKeyMetadata := do
  let trusted ← textsAt obj (str "trusted_key_ids")
  let allowed ← textsAt obj (str "allowed_algorithms")
  return {
    activeKeyId := textAt obj (str "active_key_id")
    trustedKeyIds := trusted
    allowedAlgorithms := allowed }

def readSignature (obj : Members P.Float) : SignatureBundle where
  signature := textAt obj (str "signature")
  signingKeyId := textAt obj (str "signing_key_id")
  algorithm := textAt obj (str "algorithm")

/-- The text says nothing else than the other. -/
def unsaidOrSame (s t : Str) : Bool :=
  s = [] || s = t

/-- One row of `_validate_existing_chain`, after a row with the hash `expectedPrev`: its own
hash. -/
def checkRow (L : MutationLedger P) (index : Nat) (expectedPrev : Str) (row : Members P.Float) :
    Except LedgerError Str := do
  let entryObj ← objectAt index row (str "entry")
  let entry ← readEntry L.numbers entryObj
  let prevHash := textAt row (str "prev_hash")
  require (prevHash = expectedPrev) index
    (str "prev_hash mismatch expected " ++ expectedPrev ++ str " got " ++ prevHash)
  let payloadHash := textAt row (str "canonical_payload_hash")
  require (payloadHash = canonicalPayloadHash entry) index (str "canonical_payload_hash mismatch")
  let signatureObj ← objectAt index row (str "signature_bundle")
  let signature := readSignature signatureObj
  require (unsaidOrSame (textAt row (str "signing_key_id")) signature.signingKeyId) index
    (str "signing_key_id metadata mismatch")
  require (unsaidOrSame (textAt row (str "signature_algorithm")) signature.algorithm) index
    (str "signature_algorithm metadata mismatch")
  let keyMetaObj ← objectAt index row (str "key_metadata")
  let keyMetadata ← readKeyMetadata keyMetaObj
  require (signature.signingKeyId ∈ keyMetadata.trustedKeyIds) index
    (str "signing key is not trusted by key_metadata")
  require (signature.algorithm ∈ keyMetadata.allowedAlgorithms) index
    (str "signature algorithm is not allowed by key_metadata")
  let canonical := canonicalRecordPayload entry prevHash payloadHash keyMetadata
  require (L.verifier canonical signature) index (str "signature verification failed")
  let expectedHash ← recordHash P canonical signature
  let actualHash := textAt row (str "hash")
  require (actualHash = expectedHash) index (str "hash mismatch")
  return actualHash

/-- The loop of `_validate_existing_chain`: the hash of the last row. -/
def checkRows (L : MutationLedger P) : Nat → Str → List P.Obj → Except LedgerError Str
  | _, expectedPrev, [] => .ok expectedPrev
  | index, expectedPrev, .dict row :: rows => do
    let hash ← checkRow L index expectedPrev row
    checkRows L (index + 1) hash rows
  | _, _, _ :: _ => .error (.raised .attributeError)

/-- `_validate_existing_chain`, with the hash that it ends with. -/
def MutationLedger.validateExistingChain (L : MutationLedger P) (file : Bytes) :
    Except LedgerError Str := do
  let rows ← raising (readRows P id file)
  checkRows L 1 genesisPrevHash rows

def rowOf (e : LedgerEntry P) (prevHash : Str) (k : LedgerKeyMetadata) (b : SignatureBundle)
    (hash : Str) : Members P.Float :=
  [(.str (str "entry"), e.reloaded), (.str (str "prev_hash"), .str prevHash),
    (.str (str "canonical_payload_hash"), .str (canonicalPayloadHash e)),
    (.str (str "signature_bundle"), .dict (bundleDict b)),
    (.str (str "signing_key_id"), .str b.signingKeyId),
    (.str (str "signature_algorithm"), .str b.algorithm),
    (.str (str "key_metadata"), .dict k.toDict), (.str (str "hash"), .str hash)]

/-- The chain is checked first, unless in test mode. -/
def MutationLedger.checkFirst (L : MutationLedger P) (file : Bytes) : Except LedgerError Unit :=
  if L.testMode then .ok () else (L.validateExistingChain file).map fun _ => ()

/-- `append`: the hash of the row, and the file. -/
def MutationLedger.append (L : MutationLedger P) (file : Bytes) (e : LedgerEntry P) :
    Except LedgerError (Str × Bytes) := do
  L.checkFirst file
  let prevHash ← lastHash P file
  let canonical := canonicalRecordPayload e prevHash (canonicalPayloadHash e) L.keyMetadata
  let bundle := L.signer canonical
  let hash ← recordHash P canonical bundle
  let file ← raising (appendSorted P file (.dict (rowOf e prevHash L.keyMetadata bundle hash)))
  return (hash, file)

/-- The file after an `append`; one that raises leaves it. -/
def MutationLedger.step (L : MutationLedger P) (file : Bytes) (e : LedgerEntry P) : Bytes :=
  match L.append file e with
  | .ok r => r.2
  | .error _ => file

end Adaad.Governance.Ledger
