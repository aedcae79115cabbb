import Adaad.Py.Json.Dumps
import Adaad.Py.TextFile

/-!
# `json.loads`

The scanner of Python's `json`: strict strings (no control characters), surrogate pairs joined,
`NaN` and the infinities accepted, the last of several equal keys kept.  A document is one value
between whitespace.

The recursion is on a fuel argument.  `loads` gives two units for every character and two more,
which is enough (`parse_fuel`): a level of nesting takes two units and at least one character.
-/

namespace Py

variable (P : Platform)

/-! ### Strings -/

/-- The value of a hexadecimal digit, of either case. -/
def hexValue (c : Nat) : Option Nat :=
  if isDigit c then some (c - 48)
  else if 97 ≤ c ∧ c ≤ 102 then some (c - 87)
  else if 65 ≤ c ∧ c ≤ 70 then some (c - 55)
  else none

/-- The code unit of `\uXXXX`. -/
def hex4 (a b c d : Nat) : Option Nat := do
  let a ← hexValue a
  let b ← hexValue b
  let c ← hexValue c
  let d ← hexValue d
  return a * 4096 + b * 256 + c * 16 + d

/-- The character that a one-letter escape stands for. -/
def unescape (e : Nat) : Option Nat :=
  if e = quote ∨ e = backslash ∨ e = 47 then some e
  else if e = 110 then some 10
  else if e = 114 then some 13
  else if e = 116 then some 9
  else if e = 102 then some 12
  else if e = 98 then some 8
  else none

def isHighSurrogate (u : Nat) : Bool := 0xD800 ≤ u && u ≤ 0xDBFF
def isLowSurrogate (u : Nat) : Bool := 0xDC00 ≤ u && u ≤ 0xDFFF

def joinSurrogates (hi lo : Nat) : Nat :=
  0x10000 + (hi - 0xD800) * 1024 + (lo - 0xDC00)

/-- A character of a string literal: the code unit of a `\uXXXX` escape, or any other one. -/
inductive StrUnit where
  | unit (u : Nat)
  | char (c : Nat)
  deriving DecidableEq, Repr

/-- Put a character in front of those that were read. -/
def pushUnit (u : StrUnit) (p : List StrUnit × Str) : List StrUnit × Str :=
  (u :: p.1, p.2)

/-- The characters of a string literal after its opening quote, and the text behind it. -/
def scanUnits : Str → Option (List StrUnit × Str)
  | [] => none
  | c :: r =>
    if c = quote then some ([], r)
    else if c = backslash then
      match r with
      | [] => none
      | e :: r =>
        if e = 117 then
          match r with
          | h₁ :: h₂ :: h₃ :: h₄ :: r =>
            (hex4 h₁ h₂ h₃ h₄).bind fun u => (scanUnits r).map (pushUnit (.unit u))
          | _ => none
        else (unescape e).bind fun x => (scanUnits r).map (pushUnit (.char x))
    else if c < 32 then none
    else (scanUnits r).map (pushUnit (.char c))

/-- The string: the two escapes of a surrogate pair are one character. -/
def joinUnits : List StrUnit → Str
  | [] => []
  | .char c :: us => c :: joinUnits us
  | .unit u :: us =>
    match us with
    | .unit l :: us' =>
      if isHighSurrogate u ∧ isLowSurrogate l then joinSurrogates u l :: joinUnits us'
      else u :: joinUnits (.unit l :: us')
    | us => u :: joinUnits us

/-- The string literal after an opening quote, and the text behind it. -/
def scanString (s : Str) : Option (Str × Str) :=
  (scanUnits s).map fun p => (joinUnits p.1, p.2)

/-! ### Values -/

def isJsonSpace (c : Nat) : Bool :=
  c == 32 || c == 9 || c == 10 || c == 13

def skipWs (s : Str) : Str :=
  s.dropWhile isJsonSpace

/-- The rest of a literal name whose first letter has been read. -/
def parseName (t : Str) (v : P.Obj) (r : Str) : Option (P.Obj × Str) :=
  if t.isPrefixOf r then some (v, r.drop t.length) else none

/-- `int` or `float` of a number literal. -/
def numberOf (l : NumLit) : P.Obj :=
  if l.isFloat then .float (P.floatOf (.lit l)) else .int l.intValue

/-- A value that is neither a string nor a container, from its first character on. -/
def parseScalar (c : Nat) (r : Str) : Option (P.Obj × Str) :=
  if c = 110 then parseName P (str "ull") .none r
  else if c = 116 then parseName P (str "rue") (.bool true) r
  else if c = 102 then parseName P (str "alse") (.bool false) r
  else if c = 78 then parseName P (str "aN") (.float (P.floatOf .nan)) r
  else if c = 73 then parseName P (str "nfinity") (.float (P.floatOf .infinity)) r
  else if c = 45 ∧ (str "Infinity").isPrefixOf r then
    parseName P (str "Infinity") (.float (P.floatOf .negInfinity)) r
  else (scanNumber (c :: r)).map fun p => (numberOf P p.1, p.2)

/-- The `dict` of the members in the order in which they were read. -/
def dictOf (ms : List (Str × P.Obj)) : Members P.Float :=
  ms.foldl (fun kvs m => set kvs m.1 m.2) []

mutual

/-- A value at the front of a text, and the text behind it. -/
def parseValue : Nat → Str → Option (P.Obj × Str)
  | 0, _ => none
  | _ + 1, [] => none
  | n + 1, c :: r =>
    if c = quote then (scanString r).map fun p => (.str p.1, p.2)
    else if c = 123 then
      if (skipWs r).head? = some 125 then some (.dict [], (skipWs r).tail)
      else (parseMembers n (skipWs r)).map fun p => (.dict (dictOf P p.1), p.2)
    else if c = 91 then
      if (skipWs r).head? = some 93 then some (.list [], (skipWs r).tail)
      else (parseItems n (skipWs r)).map fun p => (.list p.1, p.2)
    else parseScalar P c r

/-- The items of an array up to its closing bracket. -/
def parseItems : Nat → Str → Option (List P.Obj × Str)
  | 0, _ => none
  | n + 1, s =>
    (parseValue n s).bind fun p =>
      match skipWs p.2 with
      | [] => none
      | c :: r =>
        if c = 44 then (parseItems n (skipWs r)).map fun q => (p.1 :: q.1, q.2)
        else if c = 93 then some ([p.1], r)
        else none

/-- The members of an object up to its closing brace. -/
def parseMembers : Nat → Str → Option (List (Str × P.Obj) × Str)
  | 0, _ => none
  | _ + 1, [] => none
  | n + 1, c :: s =>
    if c = quote then
      (scanString s).bind fun k =>
        match skipWs k.2 with
        | [] => none
        | d :: r =>
          if d = 58 then
            (parseValue n (skipWs r)).bind fun p =>
              match skipWs p.2 with
              | [] => none
              | e :: r =>
                if e = 44 then
                  (parseMembers n (skipWs r)).map fun q => ((k.1, p.1) :: q.1, q.2)
                else if e = 125 then some ([(k.1, p.1)], r)
                else none
          else none
    else none

end

/-- `json.loads(text)`; `none` is a `JSONDecodeError`. -/
def loads (s : Str) : Option P.Obj :=
  (parseValue P (2 * s.length + 2) (skipWs s)).bind fun p =>
    if skipWs p.2 = [] then some p.1 else none

/-! ### The image of a value -/

mutual

/-- What `loads` makes of a written value: every key is a string, equal keys are merged, and a
tuple is a list. -/
def image : P.Obj → P.Obj
  | .list xs => .list (imageList xs)
  | .tuple xs => .list (imageList xs)
  | .dict kvs => .dict (dictOf P (imageMembers kvs))
  | v => v

def imageList : List P.Obj → List P.Obj
  | [] => []
  | x :: xs => image x :: imageList xs

def imageMembers : List (Key P.Float × P.Obj) → List (Str × P.Obj)
  | [] => []
  | (k, v) :: ms => (keyName P k, image v) :: imageMembers ms

end

end Py

/-!
## Files of JSON rows

The append-only stores of the repository keep one JSON object a line.  They write it with
`ensure_ascii=False` and a `\n`, and read the file by `read_text().splitlines()`.

The two do not agree on what a line is: `splitlines` also ends a line at U+0085, U+2028 and U+2029,
which JSON does not escape.
-/

namespace Py

variable (P : Platform)

def rowsText (L : Layout) (rows : List (Members P.Float)) : Str :=
  rows.flatMap fun row => dumps P L (.dict row) ++ [lf]

/-- `for line in text.splitlines()`, without the lines that are blank. -/
def filledLines (text : Str) : List Str :=
  (splitlines text).filter fun line => strip line ≠ []

/-- `json.loads` on each of the lines of a file; `clean` is `str.strip` where the store strips a
line before it reads it. -/
def readRows (clean : Str → Str) (file : Bytes) : Except Exc (List P.Obj) :=
  match readText file with
  | .error e => .error e
  | .ok text =>
    match (filledLines text).mapM fun line => loads P (clean line) with
    | none => .error .jsonDecodeError
    | some rows => .ok rows

/-- `json.loads` on each line of a file that is not blank; a line that is no JSON is left out. -/
def looseRows (file : Bytes) : Except Exc (List P.Obj) :=
  match readText file with
  | .error e => .error e
  | .ok text => .ok ((filledLines text).filterMap (loads P))

/-- `handle.write(json.dumps(value, sort_keys=True) + "\n")` at the end of a file. -/
def appendSorted (file : Bytes) (v : P.Obj) : Except Exc Bytes :=
  match dumpsSortedAscii P .spaced v with
  | none => .error .typeError
  | some t =>
    match encode (t ++ [lf]) with
    | none => .error .unicodeEncodeError
    | some b => .ok (file ++ b)

/-- `json.dumps(row) + "\n"` -/
def rowLine (row : Members P.Float) : Str :=
  dumpsAscii P .spaced (.dict row) ++ [lf]

/-- `handle.write(json.dumps(row) + "\n")` at the end of a file. -/
def appendRow (file : Bytes) (row : Members P.Float) : Bytes :=
  file ++ (encode (rowLine P row)).getD []

/-- The line boundaries of `splitlines` that a JSON document may contain. -/
def isSeparator (c : Nat) : Bool :=
  c == 0x85 || c == 0x2028 || c == 0x2029

/-- No string of the value, its keys included, has a line boundary that JSON does not escape. -/
def Unbroken {F : Type} (v : Value F) : Prop :=
  ∀ c ∈ v.chars, isSeparator c = false

end Py
