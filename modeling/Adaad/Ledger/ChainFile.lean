import Adaad.Py.Json.Loads
import Adaad.Chain

/-!
# Files of chained entries

The journal and the lineage ledger keep one JSON object a line, each with the hash of the entry
before it and its own.  The two verify such a file by the same loop, `_scan_chain` of the journal
and `verify_integrity` of the ledger, which differ in the name that their errors begin with and in
how they compare hashes (`Reader`).

`entries` is the reading of a file that all of this is about: its nonblank lines, each an object.
-/

namespace Adaad

open Py

variable (P : Platform)

/-! ### Entries -/

/-- `"prev_hash"` -/
def prevHashKey : Str := str "prev_hash"
/-- `"hash"` -/
def hashKey : Str := str "hash"

/-- `"0" * 64` -/
def genesisHash : Str := List.replicate 64 48

/-- `str(entry.get("prev_hash") or "")` -/
def prevHashOf (e : Members P.Float) : Str := strOr P (get e prevHashKey)

/-- `str(entry.get("hash") or "")` -/
def hashOf (e : Members P.Float) : Str := strOr P (get e hashKey)

/-- `hashlib.sha256((prev_hash + json.dumps(payload, …, sort_keys=True)).encode("utf-8"))` -/
def chainHash (L : Layout) (prev : Str) (payload : Members P.Float) : Except Exc Str :=
  match dumpsSorted P L (.dict payload) with
  | none => .error .typeError
  | some t =>
    match encode (prev ++ t) with
    | none => .error .unicodeEncodeError
    | some b => .ok (P.sha256 b)

/-- `json.loads(text)`, where it is a `dict`. -/
def parseEntry (t : Str) : Option (Members P.Float) :=
  (loads P t).bind Value.members?

/-- The entries of a file: the objects of its lines that are not blank.  `none` where the file does
not decode or a line is no object. -/
def entries (b : Bytes) : Option (List (Members P.Float)) :=
  (decode b).bind fun s => (records s).mapM (parseEntry P)

def entryFormat : Chain.Format Str (Members P.Float) where
  prev := prevHashOf P
  hash := hashOf P
  digest prev e := (chainHash P .spaced prev (without e hashKey)).toOption

/-! ### Verification -/

/-- Why a verification ends: the integrity error of the module, or an exception of the runtime that
it does not handle. -/
inductive Fault where
  | integrity (message : Str)
  | raised (e : Exc)
  deriving DecidableEq, Repr

/-- What distinguishes the two verifications. -/
structure Reader where
  /-- What the messages begin with. -/
  name : Str
  /-- The comparison of two hashes; `none` is a `TypeError`. -/
  compare : Str → Str → Option Bool

/-- `a != b` on `str`. -/
def compareText (a b : Str) : Option Bool :=
  some (a = b)

/-- The characters of `str.isascii`. -/
def isAscii (s : Str) : Bool :=
  s.all (· < 128)

/-- `hmac.compare_digest` on `str`: only ASCII text is allowed. -/
def compareDigest (a b : Str) : Option Bool :=
  if isAscii a && isAscii b then some (a = b) else none

variable (C : Reader)

/-- `f"{name}_{code}:line{line_no}{detail}"` -/
def Reader.message (code : Str) (n : Nat) (detail : Str) : Str :=
  C.name ++ str "_" ++ code ++ str ":line" ++ natText n ++ detail

/-- The integrity error, unless the hashes are equal. -/
def Reader.expect (a b : Str) (message : Str) : Except Fault Unit :=
  match C.compare a b with
  | none => .error (.raised .typeError)
  | some true => .ok ()
  | some false => .error (.integrity message)

/-- The body of the loop for an entry: its hash, which the next entry has to name. -/
def checkEntry (n : Nat) (prev : Str) (e : Members P.Float) : Except Fault Str := do
  C.expect (prevHashOf P e) prev (C.message (str "prev_hash_mismatch") n [])
  let computed ← (chainHash P .spaced prev (without e hashKey)).mapError .raised
  C.expect (hashOf P e) computed (C.message (str "hash_mismatch") n [])
  return hashOf P e

def checkLine (n : Nat) (prev : Str) (line : Str) : Except Fault Str :=
  if strip line = [] then .ok prev
  else
    match loads P (strip line) with
    | none =>
      .error (.integrity
        (C.message (str "invalid_json") n (str ":" ++ P.jsonErrorText (strip line))))
    | some (.dict e) => checkEntry P C n prev e
    | some _ => .error (.integrity (C.message (str "malformed_entry") n []))

/-- `for line_no, line in enumerate(handle, start=1)` -/
def checkLines : Nat → Str → List Str → Except Fault Str
  | _, prev, [] => .ok prev
  | n, prev, l :: ls => checkLine P C n prev l >>= fun h => checkLines (n + 1) h ls

def checkFile (prev : Str) (b : Bytes) : Except Fault Str :=
  checkLines P C 1 prev (readLines P b).1 >>= fun h =>
    if (readLines P b).2 then .ok h else .error (.raised .unicodeDecodeError)

end Adaad
