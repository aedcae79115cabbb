import Adaad.Ledger.ChainFile

/-!
# The security ledger

`security/ledger/append.py`: an entry is appended to a file of JSON lines under a lock, with the
hash that the last line has and its own.  Only the last line is read, in chunks from the end of the
file.

A missing file is created first, so that it is an empty one.
-/

namespace Adaad.SecurityLedger

open Py

variable (P : Platform)

/-! ### The last line -/

/-- `bytes.strip` -/
def stripBytes (b : Bytes) : Bytes :=
  (b.dropWhile fun x => isAsciiSpace x.toNat).rdropWhile fun x => isAsciiSpace x.toNat

/-- `chunk.rfind(b"\n")`, where there is one. -/
def rfindLf : Bytes → Option Nat
  | [] => none
  | x :: xs =>
    match rfindLf xs with
    | some i => some (i + 1)
    | none => if x = 10 then some 0 else none

/-- `_TAIL_READ_CHUNK_SIZE` -/
def tailReadChunkSize : Nat := 8192

/-- The bytes without the whitespace at their end. -/
def trimEnd (b : Bytes) : Bytes :=
  b.rdropWhile fun x => isAsciiSpace x.toNat

/-- The loop of `_read_last_nonempty_jsonl_line`: the tail that was read, and whether it is anything
but whitespace.  A round moves `fin`, so there are at most as many of them as there are bytes. -/
def readBlocks (file : Bytes) (chunkSize : Nat) : Nat → Nat → Bytes → Bool → Bytes × Bool
  | 0, _, tail, seenNonWhitespace => (tail, seenNonWhitespace)
  | n + 1, fin, tail, seenNonWhitespace =>
    if fin = 0 then (tail, seenNonWhitespace)
    else
      let start := fin - chunkSize
      let raw := (file.take fin).drop start
      let block := if seenNonWhitespace then raw else trimEnd raw
      if seenNonWhitespace = false ∧ block = [] then readBlocks file chunkSize n start tail false
      else
        match rfindLf block with
        | some newlinePos => (block.drop (newlinePos + 1) ++ tail, true)
        | none => readBlocks file chunkSize n start (block ++ tail) true

/-- `_read_last_nonempty_jsonl_line` -/
def readLastNonemptyJsonlLine (file : Bytes) : Option Bytes :=
  let r := readBlocks file tailReadChunkSize file.length file.length [] false
  if r.2 then
    let line := stripBytes r.1
    if line = [] then none else some line
  else none

/-- `string.hexdigits` -/
def isHexdigits (c : Nat) : Bool :=
  isDigit c || (97 ≤ c && c ≤ 102) || (65 ≤ c && c ≤ 70)

/-- `"entry_hash"` -/
def entryHashKey : Str := str "entry_hash"
/-- `"prev_entry_hash"` -/
def prevEntryHashKey : Str := str "prev_entry_hash"

/-- `_read_last_entry_hash_from_handle` -/
def readLastEntryHash (file : Bytes) : Except Exc Str :=
  match readLastNonemptyJsonlLine file with
  | none => .ok genesisHash
  | some last =>
    match (decode last).bind (loads P) with
    | none => .error (.valueError (str "ledger_tail_invalid"))
    | some (.dict obj) =>
      match get obj entryHashKey with
      | some (.str entryHash) =>
        if entryHash.length = 64 ∧ entryHash.all isHexdigits = true then .ok entryHash
        else .error (.valueError (str "ledger_tail_invalid"))
      | _ => .error (.valueError (str "ledger_tail_invalid"))
    | some _ => .error .attributeError

/-! ### Appending -/

/-- `json.dumps(entry, ensure_ascii=False, separators=(",", ":"), sort_keys=True)` -/
def canonicalText (entry : Members P.Float) : Except Exc Str :=
  match dumpsSorted P .compact (.dict entry) with
  | some text => .ok text
  | none => .error .typeError

/-- `_sha256_hex` -/
def sha256Hex (s : Str) : Except Exc Str :=
  (writeText s).map P.sha256

/-- `append_entry`: what is returned, and the file. -/
def appendEntry (file : Bytes) (entry : Members P.Float) :
    Except Exc (Members P.Float × Bytes) := do
  let prev ← readLastEntryHash P file
  let entry := set entry prevEntryHashKey (.str prev)
  let canonical ← canonicalText P entry
  let entryHash ← sha256Hex P canonical
  let entry := set entry entryHashKey (.str entryHash)
  let text ← canonicalText P entry
  let line ← writeText (text ++ [lf])
  return (entry, file ++ line)

/-! ### The ledger -/

def nonblankLines (file : Bytes) : List Bytes :=
  let r := cutAll (· == 10) file
  ((r.1 ++ [r.2]).map stripBytes).filter (· ≠ [])

def readLine (line : Bytes) : Option (Members P.Float) :=
  ((decode line).bind (loads P)).bind Value.members?

/-- The objects of the lines, where each line has one. -/
def readLedger (file : Bytes) : Option (List (Members P.Float)) :=
  (nonblankLines file).mapM (readLine P)

/-- The SHA-256 of the canonical form without `entry_hash`. -/
def entryDigest (entry : Members P.Float) : Option Str :=
  (canonicalText P (without entry entryHashKey) >>= sha256Hex P).toOption

/-- How the entries of the ledger are chained. -/
def ledgerFormat : Chain.Format (Option P.Obj) (Members P.Float) where
  prev entry := get entry prevEntryHashKey
  hash entry := get entry entryHashKey
  digest _ entry := (entryDigest P entry).map fun h => some (.str h)

/-- What comes after the last line end of the file is blank. -/
def Terminated (file : Bytes) : Prop :=
  stripBytes (cutAll (· == 10) file).2 = []

instance (file : Bytes) : Decidable (Terminated file) :=
  inferInstanceAs (Decidable (_ = _))

end Adaad.SecurityLedger
