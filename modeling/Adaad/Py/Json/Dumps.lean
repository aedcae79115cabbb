import Adaad.Py.Value
import Mathlib.Data.List.Sort

/-!
# `json.dumps`

`json.dumps(value, ensure_ascii=False)` with the separators as a parameter (`Layout`) and with or
without `sort_keys`.  Keys that are not strings are written as strings; they are sorted before
that, as the values they are, and keys that do not compare are a `TypeError`.

By default `json.dumps` also escapes the characters beyond ASCII (`asciiText`).
-/

namespace Py

variable (P : Platform)

/-- The `separators` of `json.dumps`: those it has by default, or `(",", ":")`. -/
inductive Layout where
  | spaced
  | compact
  deriving DecidableEq, Repr

def Layout.itemSep : Layout → Str
  | spaced => str ", "
  | compact => str ","

def Layout.keySep : Layout → Str
  | spaced => str ": "
  | compact => str ":"

/-! ### Scalars -/

/-- `"` -/
def quote : Nat := 34
/-- `\` -/
def backslash : Nat := 92

def hexDigit (n : Nat) : Nat :=
  if n < 10 then 48 + n else 87 + n

/-- One character of a string literal (`ensure_ascii=False`): the quote, the backslash and the
control characters are escaped. -/
def escapeChar (c : Nat) : Str :=
  if c = quote then [backslash, quote]
  else if c = backslash then [backslash, backslash]
  else if c = 10 then [backslash, 110]
  else if c = 13 then [backslash, 114]
  else if c = 9 then [backslash, 116]
  else if c = 12 then [backslash, 102]
  else if c = 8 then [backslash, 98]
  else if c < 32 then [backslash, 117, 48, 48, hexDigit (c / 16), hexDigit (c % 16)]
  else [c]

def escape (s : Str) : Str :=
  s.flatMap escapeChar

def quoteStr (s : Str) : Str :=
  quote :: (escape s ++ [quote])

/-- A `float` as `json` writes it. -/
def floatJson (x : P.Float) : Str :=
  match P.floatText x with
  | .nan => str "NaN"
  | .infinity => str "Infinity"
  | .negInfinity => str "-Infinity"
  | .lit l => l.text

def boolJson (b : Bool) : Str :=
  if b then str "true" else str "false"

def keyName : Key P.Float → Str
  | .str s => s
  | .int i => intText i
  | .float x => floatJson P x
  | .bool b => boolJson b
  | .none => str "null"

/-! ### Values -/

mutual

/-- `json.dumps(value, ensure_ascii=False, separators=…)` -/
def dumps (L : Layout) : P.Obj → Str
  | .none => str "null"
  | .bool b => boolJson b
  | .int i => intText i
  | .float x => floatJson P x
  | .str s => quoteStr s
  | .list [] => str "[]"
  | .list (x :: xs) => 91 :: (dumps L x ++ dumpsItems L xs)
  | .tuple [] => str "[]"
  | .tuple (x :: xs) => 91 :: (dumps L x ++ dumpsItems L xs)
  | .dict [] => str "{}"
  | .dict ((k, v) :: ms) =>
    123 :: (quoteStr (keyName P k) ++ (L.keySep ++ (dumps L v ++ dumpsMembers L ms)))

/-- The items after the first, and the closing bracket. -/
def dumpsItems (L : Layout) : List P.Obj → Str
  | [] => [93]
  | x :: xs => L.itemSep ++ (dumps L x ++ dumpsItems L xs)

/-- The members after the first, and the closing brace. -/
def dumpsMembers (L : Layout) : List (Key P.Float × P.Obj) → Str
  | [] => [125]
  | (k, v) :: ms =>
    L.itemSep ++ (quoteStr (keyName P k) ++ (L.keySep ++ (dumps L v ++ dumpsMembers L ms)))

end

/-! ### Sorted keys -/

/-- `a <= b` on `str`: by code points. -/
def strLe : Str → Str → Bool
  | [], _ => true
  | _ :: _, [] => false
  | a :: s, b :: t => a < b || (a == b && strLe s t)

/-- The number that a key is, where it is one. -/
def keyNumber : Key P.Float → Option (Int ⊕ P.Float)
  | .int i => some (.inl i)
  | .bool b => some (.inl (if b then 1 else 0))
  | .float x => some (.inr x)
  | _ => none

/-- `a <= b` on keys that compare. -/
def keyLe (a b : Key P.Float) : Bool :=
  match a, b with
  | .str s, .str t => strLe s t
  | a, b =>
    match keyNumber P a, keyNumber P b with
    | some x, some y => !P.numLt y x
    | _, _ => true

/-- Sorting these keys compares no string with a number and nothing with `None`. -/
def comparable (ks : List (Key P.Float)) : Bool :=
  ks.length ≤ 1 || ks.all Key.isString || ks.all fun k => (keyNumber P k).isSome

/-- `sorted(d.items())`; the keys are distinct, so they alone decide. -/
def sortMembers (ms : Members P.Float) : Members P.Float :=
  ms.insertionSort fun a b => keyLe P a.1 b.1 = true

mutual

/-- The value with the items of every mapping sorted; `none` is a `TypeError`. -/
def sortKeys : P.Obj → Option P.Obj
  | .list xs => (sortKeysList xs).map .list
  | .tuple xs => (sortKeysList xs).map .tuple
  | .dict kvs =>
    (sortKeysMembers kvs).bind fun ms =>
      if comparable P (ms.map Prod.fst) then some (.dict (sortMembers P ms)) else none
  | v => some v

def sortKeysList : List P.Obj → Option (List P.Obj)
  | [] => some []
  | x :: xs => (sortKeys x).bind fun y => (sortKeysList xs).map (y :: ·)

def sortKeysMembers : List (Key P.Float × P.Obj) → Option (Members P.Float)
  | [] => some []
  | (k, v) :: ms => (sortKeys v).bind fun w => (sortKeysMembers ms).map ((k, w) :: ·)

end

/-- `json.dumps(value, ensure_ascii=False, sort_keys=True, separators=…)` -/
def dumpsSorted (L : Layout) (v : P.Obj) : Option Str :=
  (sortKeys P v).map (dumps P L)

/-! ### ASCII -/

/-- `\uXXXX` -/
def unicodeEscape (u : Nat) : Str :=
  [backslash, 117, hexDigit (u / 4096 % 16), hexDigit (u / 256 % 16), hexDigit (u / 16 % 16),
    hexDigit (u % 16)]

/-- The code units of a character: those beyond U+FFFF are a surrogate pair. -/
def utf16Char (c : Nat) : List Nat :=
  if c < 0x10000 then [c]
  else [0xD800 + (c - 0x10000) / 1024 % 1024, 0xDC00 + (c - 0x10000) % 1024]

/-- A character of a document with `ensure_ascii=True`. -/
def asciiChar (c : Nat) : Str :=
  if c < 127 then [c] else (utf16Char c).flatMap unicodeEscape

/-- A document with `ensure_ascii=True`.  Beyond ASCII a document has only characters of its string
literals. -/
def asciiText (t : Str) : Str :=
  t.flatMap asciiChar

/-- `json.dumps(value, separators=…)` -/
def dumpsAscii (L : Layout) (v : P.Obj) : Str :=
  asciiText (dumps P L v)

/-- `json.dumps(value, sort_keys=True, separators=…)` -/
def dumpsSortedAscii (L : Layout) (v : P.Obj) : Option Str :=
  (dumpsSorted P L v).map asciiText

end Py
