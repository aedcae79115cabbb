import Adaad.Memory.VersionedStore

/-!
# The soulbound ledger

`runtime/memory/soulbound_ledger.py`, with the signatures of `soulbound_key.py`: a chain of signed
entries in a versioned store with the JSON backend.  A ledger object reads the last hash of the chain
when it is made, and keeps it.

The journal is left out: what it raises is swallowed.
-/

namespace Adaad.Memory

open Py

variable (P : Platform)

/-! ### Entries -/

/-- `LedgerEntry` -/
structure LedgerEntry where
  entryId : Str
  epochId : Str
  contextType : Str
  contextDigest : Str
  chainHash : Str
  hmacSignature : Str
  schemaVersion : Str
  deriving DecidableEq, Repr

/-- `LEDGER_SCHEMA_VERSION` -/
def ledgerSchemaVersion : Str :=
  str "1.0"

/-- `as_dict` -/
def LedgerEntry.asDict (e : LedgerEntry) : Members P.Float :=
  [(.str (str "entry_id"), .str e.entryId),
   (.str (str "epoch_id"), .str e.epochId),
   (.str (str "context_type"), .str e.contextType),
   (.str (str "context_digest"), .str e.contextDigest),
   (.str (str "chain_hash"), .str e.chainHash),
   (.str (str "hmac_signature"), .str e.hmacSignature),
   (.str (str "schema_version"), .str e.schemaVersion)]

/-- `s.encode("utf-8")` -/
def encodeText (s : Str) : Except Exc Bytes :=
  match encode s with
  | some b => .ok b
  | none => .error .unicodeEncodeError

/-- `signable_bytes` -/
def LedgerEntry.signableBytes (e : LedgerEntry) : Except Exc Bytes := do
  let text ← canonicalJson P (.dict
    [(.str (str "entry_id"), .str e.entryId),
     (.str (str "epoch_id"), .str e.epochId),
     (.str (str "context_type"), .str e.contextType),
     (.str (str "context_digest"), .str e.contextDigest),
     (.str (str "chain_hash"), .str e.chainHash),
     (.str (str "schema_version"), .str e.schemaVersion)])
  encodeText text

/-- `_compute_context_digest` -/
def computeContextDigest (payload : Members P.Float) : Except Exc Str := do
  let text ← canonicalJson P (.dict payload)
  return P.sha256 (← encodeText text)

/-- `_compute_chain_hash` -/
def computeChainHash (prevChainHash contextDigest : Str) : Except Exc Str := do
  return P.sha256 (← encodeText (prevChainHash ++ contextDigest))

def genesisText : Str :=
  str "ADAAD:soulbound:genesis"

/-- `GENESIS_CHAIN_HASH` -/
def genesisChainHash : Str :=
  P.sha256 ((encode genesisText).getD [])

/-! ### Keys -/

/-- What a ledger is made with. -/
structure LedgerConfig where
  /-- The key, where the environment or the caller has one. -/
  key : Option Bytes
  /-- `evaluate` of the filter chain: the reason of a rejection. -/
  evaluate : Members P.Float → Str → Except Exc (Option Str)
  /-- The number 1.0, which is a confidence. -/
  one : P.Float
  one_valid : invalidConfidence one = false

/-- What a call raises. -/
inductive LedgerError where
  | raised (e : Exc)
  /-- `SoulboundKeyError` -/
  | keyError
  deriving DecidableEq, Repr

variable {P} (c : LedgerConfig P)

/-- `sign` -/
def sign (data : Bytes) : Except LedgerError Str :=
  match c.key with
  | some key => .ok (hmacSha256 P key data)
  | none => .error .keyError

/-- `verify`: a signature beyond ASCII is no digest. -/
def verifySignature (data : Bytes) (signature : Str) : Except LedgerError Bool :=
  match c.key with
  | some key => .ok (hmacSha256 P key data = signature)
  | none => .error .keyError

/-! ### Reading -/

/-- The payload of an entry of the store; `none` is an `AttributeError`. -/
def payloadOf : P.Obj → Option P.Obj
  | .dict versioned => some ((get versioned (str "payload")).getD (.dict []))
  | _ => none

/-- `_all_entries` -/
def allEntries (file : Option Bytes) : List P.Obj :=
  match readJsonState P file with
  | .error _ => []
  | .ok state => (state.entries.mapM payloadOf).getD []

/-- `str(raw.get(name, default))` -/
def textAt (raw : Members P.Float) (name default : Str) : Str :=
  ((get raw name).map (toStr P)).getD default

variable (P) in
/-- `_recover_chain_tip` -/
def recoverChainTip (file : Option Bytes) : Except Exc Str :=
  match (allEntries (P := P) file).getLast? with
  | none => .ok (genesisChainHash P)
  | some (.dict last) => .ok (textAt last (str "chain_hash") (genesisChainHash P))
  | some _ => .error .attributeError

/-- An entry as `verify_chain` reads it. -/
def readEntry (raw : Members P.Float) : LedgerEntry where
  entryId := textAt raw (str "entry_id") []
  epochId := textAt raw (str "epoch_id") []
  contextType := textAt raw (str "context_type") []
  contextDigest := textAt raw (str "context_digest") []
  chainHash := textAt raw (str "chain_hash") []
  hmacSignature := textAt raw (str "hmac_signature") []
  schemaVersion := textAt raw (str "schema_version") ledgerSchemaVersion

/-! ### Appending -/

/-- `AppendResult` -/
structure AppendResult where
  entry : LedgerEntry
  accepted : Bool
  rejectionReason : Option Str
  deriving DecidableEq, Repr

/-- `_null_entry` -/
def nullEntry (epochId contextType : Str) : LedgerEntry where
  entryId := []
  epochId := epochId
  contextType := contextType
  contextDigest := []
  chainHash := []
  hmacSignature := []
  schemaVersion := ledgerSchemaVersion

/-- The arguments of `append`, with the identifier that is drawn and the time of the store. -/
structure AppendCall (P : Platform) where
  epochId : Str
  contextType : Str
  payload : Members P.Float
  entryId : Str
  now : Str

def signedEntry (lastChainHash : Str) (a : AppendCall P) : Except LedgerError LedgerEntry := do
  let contextDigest ← (computeContextDigest P a.payload).mapError .raised
  let chainHash ← (computeChainHash P lastChainHash contextDigest).mapError .raised
  let unsigned : LedgerEntry :=
    { entryId := a.entryId
      epochId := a.epochId
      contextType := a.contextType
      contextDigest := contextDigest
      chainHash := chainHash
      hmacSignature := []
      schemaVersion := ledgerSchemaVersion }
  let hmacSig ← sign c (← (unsigned.signableBytes P).mapError .raised)
  return { unsigned with hmacSignature := hmacSig }

def persist (file : Option Bytes) (lastChainHash : Str) (a : AppendCall P) :
    Except LedgerError (LedgerEntry × Bytes) := do
  let entry ← signedEntry c lastChainHash a
  let (_, file) ← (jsonAppend file (entry.asDict P ++ [(.str (str "context_payload"), .dict a.payload)])
    c.one a.now).mapError .raised
  return (entry, file)

/-- `append`: what it returns or raises, the file and the last hash. -/
def append (file : Option Bytes) (lastChainHash : Str) (a : AppendCall P) :
    Except LedgerError AppendResult × Option Bytes × Str :=
  match c.evaluate a.payload a.contextType with
  | .error e => (.error (.raised e), file, lastChainHash)
  | .ok (some reason) =>
    (.ok ⟨nullEntry a.epochId a.contextType, false, some reason⟩, file, lastChainHash)
  | .ok none =>
    match persist c file lastChainHash a with
    | .error e => (.error e, file, lastChainHash)
    | .ok (entry, file) => (.ok ⟨entry, true, none⟩, some file, entry.chainHash)

/-! ### Verification -/

/-- One entry of `verify_chain`, after the last hash that is right and the failures so far. -/
def verifyEntry (s : Str × List Str) (raw : P.Obj) : Except LedgerError (Str × List Str) :=
  match raw with
  | .dict raw => do
    let entry := readEntry raw
    let expected ← (computeChainHash P s.1 entry.contextDigest).mapError .raised
    let failures ←
      if entry.chainHash ≠ expected then
        pure (s.2 ++ [str "chain_hash_mismatch:entry_id=" ++ entry.entryId])
      else do
        let data ← (entry.signableBytes P).mapError .raised
        -- without a key no signature is right
        let sigOk := (verifySignature c data entry.hmacSignature).toOption.getD false
        pure (if sigOk then s.2 else s.2 ++ [str "hmac_mismatch:entry_id=" ++ entry.entryId])
    return (if failures = [] then entry.chainHash else s.1, failures)
  | _ => .error (.raised .attributeError)

/-- `verify_chain` -/
def verifyChain (file : Option Bytes) : Except LedgerError (Bool × List Str) := do
  let s ← (allEntries file).foldlM (verifyEntry c) (genesisChainHash P, [])
  return (s.2.isEmpty, s.2)

/-! ### Runs -/

/-- A ledger file, and the last hash that each ledger object on it keeps. -/
structure Ledgers where
  file : Option Bytes
  tips : Nat → Option Str

def Ledgers.new : Ledgers :=
  ⟨none, fun _ => none⟩

variable (P) in
/-- What may happen: a ledger object is made, or one appends. -/
inductive LedgerAction where
  | opens (ledger : Nat)
  | appends (ledger : Nat) (a : AppendCall P)

/-- What an append of a ledger object returns or raises, and what it leaves. -/
def Ledgers.append (s : Ledgers) (ledger : Nat) (a : AppendCall P) :
    Option (Except LedgerError AppendResult) × Ledgers :=
  match s.tips ledger with
  | none => (none, s)
  | some tip =>
    let (result, file, tip) := Memory.append c s.file tip a
    (some result, ⟨file, Function.update s.tips ledger (some tip)⟩)

def Ledgers.step (s : Ledgers) : LedgerAction P → Ledgers
  | .opens ledger =>
    match recoverChainTip P s.file with
    | .ok tip => { s with tips := Function.update s.tips ledger (some tip) }
    | .error _ => s
  | .appends ledger a => (s.append c ledger a).2

end Adaad.Memory
