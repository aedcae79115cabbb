import Adaad.Py.Json.Equiv.RowLog

/-!
# The ledgers of the innovation engines

What the engines under `runtime/innovations30` have in common: a ledger of JSON lines that is read
when an engine is created, and digests of sorted documents.
-/

namespace Adaad.Innovations

open Py

variable {P : Platform}

variable (P) in
/-- `hashlib.sha256(json.dumps(payload, sort_keys=True).encode()).hexdigest()`, of a payload whose keys
are strings. -/
def jsonDigest (payload : Members P.Float) : Str :=
  P.sha256 ((encode ((dumpsSortedAscii P .spaced (.dict payload)).getD [])).getD [])

/-- A time as the clock gives it, in the format of the engine. -/
structure Timestamp where
  text : Str
  ascii : ∀ c ∈ text, c < 128

/-! ### Numbers -/

variable (P) in
/-- An `int` or a `float`. -/
abbrev Number := Int ⊕ P.Float

def Number.toObj : Number P → P.Obj
  | .inl i => .int i
  | .inr x => .float x

def Number.isReal : Number P → Bool
  | .inl _ => true
  | .inr x => P.floatText x ≠ .nan

/-- `a >= b` -/
def Number.ge (a b : Number P) : Bool :=
  a.isReal && b.isReal && !P.numLt a b

/-! ### Reading a ledger -/

/-- What stops an engine from being created. -/
inductive LoadError where
  | keyError (key : Str)
  | raised (e : Exc)
  /-- A value of a type that no engine writes. -/
  | foreign
  deriving DecidableEq, Repr

def textOf : P.Obj → Except LoadError Str
  | .str s => .ok s
  | _ => .error .foreign

def textsOf : P.Obj → Except LoadError (List Str)
  | .list xs => xs.mapM textOf
  | _ => .error .foreign

def intOf : P.Obj → Except LoadError Int
  | .int i => .ok i
  | _ => .error .foreign

def numberOf : P.Obj → Except LoadError (Number P)
  | .int i => .ok (.inl i)
  | .float x => .ok (.inr x)
  | _ => .error .foreign

def itemsOf : P.Obj → Except LoadError (Members P.Float)
  | .dict ms => .ok ms
  | _ => .error .foreign

/-- `row[key]` -/
def fieldAt (row : Members P.Float) (key : Str) : Except LoadError P.Obj :=
  match get row key with
  | none => .error (.keyError key)
  | some v => .ok v

/-- `row[key]`, where it is a text. -/
def textAt (row : Members P.Float) (key : Str) : Except LoadError Str :=
  fieldAt row key >>= textOf

/-- `row[key]`, where it is an `int`. -/
def intAt (row : Members P.Float) (key : Str) : Except LoadError Int :=
  fieldAt row key >>= intOf

/-- `row[key]`, where it is a number. -/
def numberAt (row : Members P.Float) (key : Str) : Except LoadError (Number P) :=
  fieldAt row key >>= numberOf

theorem ascii_jsonDigest (payload : Members P.Float) : ∀ c ∈ jsonDigest P payload, c < 128 :=
  ascii_sha256 P _

theorem jsonDigest_ne_nil (payload : Members P.Float) : jsonDigest P payload ≠ [] := by
  intro h
  have hlength := congrArg List.length h
  rw [jsonDigest, P.length_sha256] at hlength
  cases hlength

theorem fieldAt_eq_ok {row : Members P.Float} {key : Str} {v : P.Obj} (h : get row key = some v) :
    fieldAt row key = .ok v := by
  unfold fieldAt
  rw [h]

theorem textAt_eq_ok {row : Members P.Float} {key s : Str} (h : get row key = some (.str s)) :
    textAt row key = .ok s := by
  unfold textAt
  rw [fieldAt_eq_ok h]
  rfl

theorem intAt_eq_ok {row : Members P.Float} {key : Str} {i : Int} (h : get row key = some (.int i)) :
    intAt row key = .ok i := by
  unfold intAt
  rw [fieldAt_eq_ok h]
  rfl

theorem numberAt_eq_ok {row : Members P.Float} {key : Str} {n : Number P}
    (h : get row key = some n.toObj) : numberAt row key = .ok n := by
  unfold numberAt
  rw [fieldAt_eq_ok h]
  cases n <;> rfl

theorem textsOf_map_str (ss : List Str) : textsOf (.list (ss.map .str) : P.Obj) = .ok ss := by
  unfold textsOf
  rw [mapM_eq_ok, List.forall₂_map_left_iff]
  exact List.forall₂_same.mpr fun _ _ => rfl

end Adaad.Innovations

/-!
## What the ledgers keep

Numbers, and the texts that the engines make, are read from a ledger as they were written.
-/

namespace Adaad.Innovations

open Py

variable {P : Platform}

theorem Number.stays_toObj (n : Number P) : n.toObj.Stays := by
  cases n with
  | inl i => exact Value.stays_int i
  | inr x => exact ⟨trivial, trivial, rfl⟩

theorem ascii_intText (i : Int) : ∀ c ∈ intText i, c < 128 :=
  fun _ hc => (printable_of_mem_intText hc).2.trans (by decide)

theorem ascii_floatStr (x : P.Float) : ∀ c ∈ floatStr P x, c < 128 := by
  have hnan : ∀ c ∈ str "nan", c < 128 := by decide
  have hinf : ∀ c ∈ str "inf", c < 128 := by decide
  have hneg : ∀ c ∈ str "-inf", c < 128 := by decide
  unfold floatStr
  cases h : P.floatText x with
  | nan => exact hnan
  | infinity => exact hinf
  | negInfinity => exact hneg
  | lit l =>
    exact fun c hc => (NumLit.printable_of_mem_text (P.floatText_wf x l h).1 hc).2.trans (by decide)

theorem Number.ascii_toStr (n : Number P) : ∀ c ∈ toStr P n.toObj, c < 128 := by
  cases n with
  | inl i => exact ascii_intText i
  | inr x => exact ascii_floatStr x

end Adaad.Innovations
