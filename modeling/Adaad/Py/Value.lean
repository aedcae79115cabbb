import Adaad.Py.Number
import Adaad.Py.Utf8

/-!
# Python data

The values that `json` reads and writes, and the part of the Python runtime that programs over
them see.  A `dict` is the list of its items in insertion order; its keys may be anything that
`json.dumps` turns into a string.

What the runtime brings that is not plain data (floats, SHA-256, `repr`, the buffering of files) is
a parameter, `Platform`, with the documented facts that the proofs use.
-/

namespace Py

/-! ### Values -/

/-- The key of a `dict` item, of a kind `json.dumps` accepts. -/
inductive Key (F : Type) where
  | str (s : Str)
  | int (i : Int)
  | float (x : F)
  | bool (b : Bool)
  | none
  deriving DecidableEq, Repr

/-- A value that `json.dumps` accepts. -/
inductive Value (F : Type) where
  | none
  | bool (b : Bool)
  | int (i : Int)
  | float (x : F)
  | str (s : Str)
  | list (xs : List (Value F))
  | tuple (xs : List (Value F))
  | dict (kvs : List (Key F × Value F))
  deriving Repr

/-- The items of a `dict`. -/
abbrev Members (F : Type) := List (Key F × Value F)

@[elab_as_elim]
theorem Value.ind {F : Type} {motive : Value F → Prop} (none : motive .none)
    (bool : ∀ b, motive (.bool b)) (int : ∀ i, motive (.int i)) (float : ∀ x, motive (.float x))
    (str : ∀ s, motive (.str s)) (list : ∀ xs, (∀ x ∈ xs, motive x) → motive (.list xs))
    (tuple : ∀ xs, (∀ x ∈ xs, motive x) → motive (.tuple xs))
    (dict : ∀ kvs : Members F, (∀ m ∈ kvs, motive m.2) → motive (.dict kvs)) (v : Value F) :
    motive v :=
  @Value.rec F motive (fun xs => ∀ x ∈ xs, motive x) (fun kvs => ∀ m ∈ kvs, motive m.2)
    (fun m => motive m.2) none bool int float str (fun xs => list xs) (fun xs => tuple xs)
    (fun kvs => dict kvs) (by simp) (fun _ _ h hs => List.forall_mem_cons.mpr ⟨h, hs⟩) (by simp)
    (fun _ _ h hs => List.forall_mem_cons.mpr ⟨h, hs⟩) (fun _ _ h => h) v

/-- The text of a `float`, as `json` writes and reads it. -/
inductive FloatText where
  | nan
  | infinity
  | negInfinity
  | lit (l : NumLit)
  deriving DecidableEq, Repr

/-- The exceptions of the runtime that the models tell apart. -/
inductive Exc where
  | typeError
  | attributeError
  | valueError (message : Str)
  | runtimeError (message : Str)
  | unicodeEncodeError
  | unicodeDecodeError
  | jsonDecodeError
  deriving DecidableEq, Repr

/-- A hexadecimal digit as `hexdigest` writes it. -/
def isHexDigit (c : Nat) : Bool :=
  isDigit c || (97 ≤ c && c ≤ 102)

theorem lt_of_isHexDigit {c : Nat} (h : isHexDigit c = true) : c < 127 := by
  simp only [isHexDigit, isDigit, Bool.or_eq_true, Bool.and_eq_true, decide_eq_true_eq] at h
  omega

theorem ascii_of_isHexDigit {s : Str} (h : ∀ c ∈ s, isHexDigit c = true) : ∀ c ∈ s, c < 128 :=
  fun c hc => (lt_of_isHexDigit (h c hc)).trans (by decide)

theorem isSpace_of_isHexDigit {c : Nat} (h : isHexDigit c = true) : isSpace c = false := by
  simp only [isHexDigit, isDigit, Bool.or_eq_true, Bool.and_eq_true, decide_eq_true_eq] at h
  simp only [isSpace, Bool.or_eq_false_iff, Bool.and_eq_false_iff, decide_eq_false_iff_not,
    beq_eq_false_iff_ne]
  omega

/-- The runtime that a program runs on. -/
structure Platform where
  /-- The type `float`. -/
  Float : Type
  /-- `float.__repr__`, with the names `json` has for the special values. -/
  floatText : Float → FloatText
  /-- `float(text)` on a literal or a special name. -/
  floatOf : FloatText → Float
  /-- A finite `float` is written as a literal that JSON reads as a `float`. -/
  floatText_wf : ∀ x l, floatText x = .lit l → l.WF ∧ l.isFloat = true
  /-- `float(repr(x)) == x` -/
  floatOf_floatText : ∀ x, floatOf (floatText x) = x
  /-- `bool(x)` -/
  floatTruthy : Float → Bool
  /-- `x < y` on numbers. -/
  numLt : Int ⊕ Float → Int ⊕ Float → Bool
  /-- `repr` of a container. -/
  repr : Value Float → Str
  /-- `str.lower` -/
  lower : Str → Str
  /-- `hashlib.sha256(data).hexdigest()` -/
  sha256 : Bytes → Str
  /-- A digest is written in hexadecimal. -/
  isHexDigit_sha256 : ∀ b, ∀ c ∈ sha256 b, isHexDigit c = true
  length_sha256 : ∀ b, (sha256 b).length = 64
  /-- `str(exc)` of the `JSONDecodeError` that `json.loads` raises on a text. -/
  jsonErrorText : Str → Str
  /-- The text that `json.loads` makes of `bytes`; `none` is a `UnicodeDecodeError`. -/
  jsonBytes : Bytes → Option Str
  /-- Without a byte order mark and with no NUL among the first two characters, which is what gives
  the other encodings away, the bytes are taken as UTF-8. -/
  jsonBytes_encode : ∀ s b, encode s = some b → s.head? ≠ some 0xFEFF →
    (∀ c ∈ s.take 2, c ≠ 0) → jsonBytes b = some s
  /-- How many of the lines before an undecodable byte a text file yields before it fails; this
  depends on its buffer. -/
  buffered : Bytes → Nat

theorem ascii_sha256 (P : Platform) (b : Bytes) : ∀ c ∈ P.sha256 b, c < 128 :=
  ascii_of_isHexDigit (P.isHexDigit_sha256 b)

theorem ascii_prefixed_sha256 (P : Platform) (b : Bytes) :
    ∀ c ∈ str "sha256:" ++ P.sha256 b, c < 128 := by
  intro c hc
  rcases List.mem_append.mp hc with hc | hc
  · have hname : ∀ c ∈ str "sha256:", c < 128 := by decide
    exact hname c hc
  · exact ascii_sha256 P b c hc

/-- A value of a platform. -/
abbrev Platform.Obj (P : Platform) := Value P.Float

/-! ### Dictionaries

Only string keys are looked up or stored by the programs modelled here. -/

section dict

variable {F : Type}

/-- The key is the string `k`. -/
def Key.is (k : Str) : Key F → Bool
  | .str s => s == k
  | _ => false

/-- `d.get(k)` -/
def get (kvs : Members F) (k : Str) : Option (Value F) :=
  (kvs.find? fun m => m.1.is k).map Prod.snd

/-- `d[k] = v` -/
def set (kvs : Members F) (k : Str) (v : Value F) : Members F :=
  if kvs.any fun m => m.1.is k then kvs.map fun m => if m.1.is k then (m.1, v) else m
  else kvs ++ [(.str k, v)]

/-- `{key: value for key, value in d.items() if key != k}` -/
def without (kvs : Members F) (k : Str) : Members F :=
  kvs.filter fun m => !m.1.is k

/-- `value.items()` where the value is a `dict`. -/
def Value.members? : Value F → Option (Members F)
  | .dict kvs => some kvs
  | _ => .none

theorem Key.is_iff {k : Str} {key : Key F} : key.is k = true ↔ key = .str k := by
  cases key <;> simp [Key.is]

theorem get_cons_self (k : Str) (v : Value F) (kvs : Members F) :
    get ((.str k, v) :: kvs) k = some v := by
  simp [get, Key.is]

theorem get_cons_of_ne {k k' : Str} (h : k' ≠ k) (v : Value F) (kvs : Members F) :
    get ((.str k', v) :: kvs) k = get kvs k := by
  simp [get, Key.is, h]

theorem get_append_of_eq_none {kvs : Members F} {k : Str} (h : get kvs k = .none)
    (kvs' : Members F) : get (kvs ++ kvs') k = get kvs' k := by
  simp only [get, Option.map_eq_none_iff] at h
  simp [get, List.find?_append, h]

theorem without_append (kvs kvs' : Members F) (k : Str) :
    without (kvs ++ kvs') k = without kvs k ++ without kvs' k :=
  List.filter_append _ _

end dict

/-! ### Truth and text -/

variable (P : Platform)

/-- `bool(v)` -/
def truthy : P.Obj → Bool
  | .none => false
  | .bool b => b
  | .int i => i ≠ 0
  | .float x => P.floatTruthy x
  | .str s => s ≠ []
  | .list xs => !xs.isEmpty
  | .tuple xs => !xs.isEmpty
  | .dict kvs => !kvs.isEmpty

/-- `str(x)` on a `float`. -/
def floatStr (x : P.Float) : Str :=
  match P.floatText x with
  | .nan => str "nan"
  | .infinity => str "inf"
  | .negInfinity => str "-inf"
  | .lit l => l.text

/-- `str(v)` -/
def toStr : P.Obj → Str
  | .none => str "None"
  | .bool true => str "True"
  | .bool false => str "False"
  | .int i => intText i
  | .float x => floatStr P x
  | .str s => s
  | v => P.repr v

/-- `v or w`, where a missing value is `None`. -/
def orElse (v w : Option P.Obj) : Option P.Obj :=
  match v with
  | .none => w
  | some x => if truthy P x then v else w

/-- `str(v or "")`, where a missing value is `None`. -/
def strOr (v : Option P.Obj) : Str :=
  match v with
  | .none => []
  | some x => if truthy P x then toStr P x else []

@[simp] theorem strOr_str (s : Str) : strOr P (some (.str s)) = s := by
  by_cases hs : s = [] <;> simp [strOr, truthy, toStr, hs]

@[simp] theorem strOr_none : strOr P .none = [] := rfl

/-! ### Plain data -/

section plain

variable {F : Type}

def Key.isString : Key F → Bool
  | .str _ => true
  | _ => false

mutual

/-- The keys of every mapping are distinct, as in any `dict`. -/
def Value.WF : Value F → Prop
  | .list xs => WFList xs
  | .tuple xs => WFList xs
  | .dict kvs => (kvs.map Prod.fst).Nodup ∧ WFMembers kvs
  | _ => True

def WFList : List (Value F) → Prop
  | [] => True
  | x :: xs => x.WF ∧ WFList xs

def WFMembers : List (Key F × Value F) → Prop
  | [] => True
  | (_, v) :: ms => v.WF ∧ WFMembers ms

end

mutual

/-- The data that JSON has: every key is a string and no sequence is a tuple. -/
def Value.Plain : Value F → Prop
  | .list xs => PlainList xs
  | .tuple _ => False
  | .dict kvs => PlainMembers kvs
  | _ => True

def PlainList : List (Value F) → Prop
  | [] => True
  | x :: xs => x.Plain ∧ PlainList xs

def PlainMembers : List (Key F × Value F) → Prop
  | [] => True
  | (k, v) :: ms => k.isString = true ∧ v.Plain ∧ PlainMembers ms

end

def Key.chars : Key F → List Nat
  | .str s => s
  | _ => []

mutual

/-- The characters of all strings of a value, its keys included. -/
def Value.chars : Value F → List Nat
  | .str s => s
  | .list xs => charsList xs
  | .tuple xs => charsList xs
  | .dict kvs => charsMembers kvs
  | _ => []

def charsList : List (Value F) → List Nat
  | [] => []
  | x :: xs => x.chars ++ charsList xs

def charsMembers : List (Key F × Value F) → List Nat
  | [] => []
  | (k, v) :: ms => k.chars ++ (v.chars ++ charsMembers ms)

end

/-- The key with its text changed, where it is a string. -/
def Key.mapStr (f : Str → Str) : Key F → Key F
  | .str s => .str (f s)
  | k => k

mutual

/-- The value with all its strings changed, its keys included. -/
def Value.mapStr (f : Str → Str) : Value F → Value F
  | .str s => .str (f s)
  | .list xs => .list (mapStrList f xs)
  | .tuple xs => .tuple (mapStrList f xs)
  | .dict kvs => .dict (mapStrMembers f kvs)
  | v => v

def mapStrList (f : Str → Str) : List (Value F) → List (Value F)
  | [] => []
  | x :: xs => x.mapStr f :: mapStrList f xs

def mapStrMembers (f : Str → Str) : List (Key F × Value F) → List (Key F × Value F)
  | [] => []
  | (k, v) :: ms => (k.mapStr f, v.mapStr f) :: mapStrMembers f ms

end

theorem mem_charsList {xs : List (Value F)} {c : Nat} :
    c ∈ charsList xs ↔ ∃ x ∈ xs, c ∈ x.chars := by
  induction xs with
  | nil => simp [charsList]
  | cons x xs ih => simp [charsList, ih]

theorem mem_charsMembers {ms : Members F} {c : Nat} :
    c ∈ charsMembers ms ↔ ∃ m ∈ ms, c ∈ m.1.chars ∨ c ∈ m.2.chars := by
  induction ms with
  | nil => simp [charsMembers]
  | cons m ms ih => simp [charsMembers, ih, or_assoc]

/-- A `dict`: its keys are distinct, and so are those of every mapping in it. -/
structure Dict (F : Type) where
  items : Members F
  wf : (Value.dict items).WF

theorem wf_dict_nil : (Value.dict [] : Value F).WF :=
  ⟨List.nodup_nil, trivial⟩

/-- `{}` -/
def Dict.empty : Dict F := ⟨[], wf_dict_nil⟩

@[simp]
theorem Dict.items_empty : (Dict.empty : Dict F).items = [] :=
  rfl

theorem wfList_iff {xs : List (Value F)} : WFList xs ↔ ∀ x ∈ xs, x.WF := by
  induction xs with
  | nil => simp [WFList]
  | cons x xs ih => simp [WFList, ih]

theorem wfMembers_iff {ms : Members F} : WFMembers ms ↔ ∀ m ∈ ms, m.2.WF := by
  induction ms with
  | nil => simp [WFMembers]
  | cons m ms ih => simp [WFMembers, ih]

theorem wf_of_names {ms : Members F} (names : List Str)
    (hkeys : ms.map Prod.fst = names.map Key.str) (hnodup : names.Nodup)
    (h : ∀ m ∈ ms, m.2.WF) : (Value.dict ms).WF := by
  rw [Value.WF, wfMembers_iff, hkeys]
  exact ⟨hnodup.map fun _ _ hab => Key.str.inj hab, h⟩

theorem wf_of_get {ms : Members F} {k : Str} {v : Value F} (hwf : (Value.dict ms).WF)
    (h : get ms k = some v) : v.WF := by
  rw [Value.WF, wfMembers_iff] at hwf
  obtain ⟨m, hm, rfl⟩ := Option.map_eq_some_iff.mp h
  exact hwf.2 m (List.mem_of_find?_eq_some hm)

theorem plainList_iff {xs : List (Value F)} : PlainList xs ↔ ∀ x ∈ xs, x.Plain := by
  induction xs with
  | nil => simp [PlainList]
  | cons x xs ih => simp [PlainList, ih]

theorem plainMembers_iff {ms : Members F} :
    PlainMembers ms ↔ ∀ m ∈ ms, m.1.isString = true ∧ m.2.Plain := by
  induction ms with
  | nil => simp [PlainMembers]
  | cons m ms ih => simp [PlainMembers, ih, and_assoc]

theorem Key.eq_str_of_isString {k : Key F} (h : k.isString = true) : ∃ s, k = .str s := by
  cases k <;> simp_all [Key.isString]

end plain

end Py

/-!
## HMAC

`hmac.new(key, data, hashlib.sha256).hexdigest()`
-/

namespace Py

variable (P : Platform)

def unhexDigit (c : Nat) : Nat :=
  if c ≤ 57 then c - 48 else c - 87

/-- `bytes.fromhex`, of lower-case digits without spaces. -/
def unhex : Str → Bytes
  | a :: b :: s => .ofNat (unhexDigit a * 16 + unhexDigit b) :: unhex s
  | _ => []

def hmacBlock (key : Bytes) : Bytes :=
  let key := if 64 < key.length then unhex (P.sha256 key) else key
  key ++ List.replicate (64 - key.length) 0

/-- `hmac.new(key, data, hashlib.sha256).hexdigest()` -/
def hmacSha256 (key data : Bytes) : Str :=
  let inner := P.sha256 ((hmacBlock P key).map (· ^^^ 0x36) ++ data)
  P.sha256 ((hmacBlock P key).map (· ^^^ 0x5c) ++ unhex inner)

end Py

/-!
## `dict(value)`

A mapping is copied; anything else has to be a sequence of pairs.
-/

namespace Py

variable (P : Platform)

def Key.value : Key P.Float → P.Obj
  | .str s => .str s
  | .int i => .int i
  | .float x => .float x
  | .bool b => .bool b
  | .none => .none

/-- `list(v)` of a value that can be iterated over. -/
def elements : P.Obj → Option (List P.Obj)
  | .list xs => some xs
  | .tuple xs => some xs
  | .str s => some (s.map fun c => .str [c])
  | .dict kvs => some (kvs.map fun m => m.1.value P)
  | _ => none

mutual

/-- `hash(v)` succeeds. -/
def hashable : P.Obj → Bool
  | .list _ => false
  | .dict _ => false
  | .tuple xs => hashableAll xs
  | _ => true

def hashableAll : List P.Obj → Bool
  | [] => true
  | x :: xs => hashable x && hashableAll xs

end

/-- The value as a key; `none` is a tuple, which is a key that `json` does not write. -/
def keyOf : P.Obj → Except Exc (Option (Key P.Float))
  | .str s => .ok (some (.str s))
  | .int i => .ok (some (.int i))
  | .float x => .ok (some (.float x))
  | .bool b => .ok (some (.bool b))
  | .none => .ok (some .none)
  | .tuple xs => if hashableAll P xs then .ok none else .error .typeError
  | .list _ => .error .typeError
  | .dict _ => .error .typeError

/-- The number that a key is, where it is one and not a NaN. -/
def keyNumber? : Key P.Float → Option (Int ⊕ P.Float)
  | .int i => some (.inl i)
  | .bool b => some (.inl (if b then 1 else 0))
  | .float x => if P.floatText x = .nan then none else some (.inr x)
  | _ => none

/-- `a == b` on keys. -/
def sameKey : Key P.Float → Key P.Float → Bool
  | .str s, .str t => s == t
  | .none, .none => true
  | a, b =>
    match keyNumber? P a, keyNumber? P b with
    | some x, some y => !P.numLt x y && !P.numLt y x
    | _, _ => false

/-- `d[k] = v` for any key. -/
def setKey (kvs : Members P.Float) (k : Key P.Float) (v : P.Obj) : Members P.Float :=
  if kvs.any fun m => sameKey P m.1 k then
    kvs.map fun m => if sameKey P m.1 k then (m.1, v) else m
  else kvs ++ [(k, v)]

/-- One pair of a sequence goes into the `dict`; a `dict` with a tuple among its keys is `none`. -/
def putPair (d : Option (Members P.Float)) (x : P.Obj × Nat) :
    Except Exc (Option (Members P.Float)) :=
  match elements P x.1 with
  | none => .error .typeError
  | some [k, v] => do
    let key ← keyOf P k
    return key.bind fun key => d.map fun kvs => setKey P kvs key v
  | some xs =>
    .error (.valueError (str "dictionary update sequence element #" ++ (natText x.2 ++
      (str " has length " ++ (natText xs.length ++ str "; 2 is required")))))

/-- `dict(v)`; a `dict` with a tuple among its keys is `none`. -/
def dictOfValue : P.Obj → Except Exc (Option (Members P.Float))
  | .dict kvs => .ok (some kvs)
  | v =>
    match elements P v with
    | none => .error .typeError
    | some xs => xs.zipIdx.foldlM (putPair P) (some [])

/-! ## Equality -/

/-- The number that a value is, where it is one and not a NaN. -/
def numeric? : P.Obj → Option (Int ⊕ P.Float)
  | .bool b => keyNumber? P (.bool b)
  | .int i => keyNumber? P (.int i)
  | .float x => keyNumber? P (.float x)
  | _ => none

def isNanValue : P.Obj → Bool
  | .float x => P.floatText x = .nan
  | _ => false

mutual

/-- `a == b` on data that `json.loads` has read.  It has one object for every NaN, and in a container
an object equals itself. -/
def sameValue : P.Obj → P.Obj → Bool
  | .list xs, .list ys => sameItems xs ys
  | .tuple xs, .tuple ys => sameItems xs ys
  | .dict kvs, .dict ms => kvs.length = ms.length && sameMembers kvs ms
  | .str s, .str t => s = t
  | .none, .none => true
  | v, w =>
    match numeric? P v, numeric? P w with
    | some x, some y => !P.numLt x y && !P.numLt y x
    | _, _ => false

def sameItems : List P.Obj → List P.Obj → Bool
  | [], [] => true
  | x :: xs, y :: ys => (isNanValue P x && isNanValue P y || sameValue x y) && sameItems xs ys
  | _, _ => false

/-- Every key of the first `dict` has the same value in the second. -/
def sameMembers : Members P.Float → Members P.Float → Bool
  | [], _ => true
  | (k, v) :: kvs, ms =>
    (match ms.find? fun m => sameKey P m.1 k with
      | some m => isNanValue P v && isNanValue P m.2 || sameValue v m.2
      | none => false) && sameMembers kvs ms

end

theorem sameValue_str {s t : Str} : sameValue P (.str s) (.str t) = true ↔ s = t := by
  rw [sameValue]
  exact decide_eq_true_iff

end Py
