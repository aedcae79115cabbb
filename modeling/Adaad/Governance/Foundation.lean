import Adaad.Py.Json.Dumps
import Adaad.Py.TextFile

/-!
# Canonical JSON and its digests

`runtime/governance/foundation/canonical.py` and `hashing.py`.
-/

namespace Adaad

open Py

variable (P : Platform)

/-- `canonical_json` -/
def canonicalJson (v : P.Obj) : Except Exc Str :=
  match dumpsSorted P .compact v with
  | none => .error .typeError
  | some t => .ok t

/-- `sha256_prefixed_digest` of a text. -/
def digestOf (text : Str) : Except Exc Str :=
  match encode text with
  | none => .error .unicodeEncodeError
  | some b => .ok (str "sha256:" ++ P.sha256 b)

/-- `sha256_prefixed_digest` of data. -/
def canonicalDigest (v : P.Obj) : Except Exc Str := do
  digestOf P (← canonicalJson P v)

variable {P}

theorem canonicalJson_congr {v w : P.Obj}
    (h : dumpsSorted P .compact v = dumpsSorted P .compact w) :
    canonicalJson P v = canonicalJson P w := by
  unfold canonicalJson
  rw [h]

theorem canonicalJson_of_sortKeys {v w : P.Obj} (h : sortKeys P v = some w) :
    canonicalJson P v = .ok (dumps P .compact w) := by
  unfold canonicalJson dumpsSorted
  rw [h]
  rfl

end Adaad
