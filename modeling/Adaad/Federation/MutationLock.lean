import Adaad.Py.Json.Loads
import Adaad.Run
import Mathlib.Logic.Function.Basic

/-!
# Mutation locks

`acquire_mutation_lock` of `runtime/governance/federation/coordination.py`, called by several
processes for one intent.  Each call goes through its file-system operations one at a time, and
those of different calls interleave in any order.

A process that has created the lock file writes through the handle it has, also when the path names
another file by then; so the path holds the number of a file.
-/

namespace Adaad.MutationLock

open Py

variable (P : Platform)

/-! ### Staleness -/

def acquiredAtKey : Str := str "acquired_at"
def intentIdKey : Str := str "intent_id"

/-- `int(v)`, where `ofFloat` and `ofStr` are what it makes of a `float` and of a text; `none` is
an exception. -/
def toInt (ofFloat : P.Float → Option Int) (ofStr : Str → Option Int) : P.Obj → Option Int
  | .int i => some i
  | .bool b => some (if b then 1 else 0)
  | .float x => ofFloat x
  | .str s => ofStr s
  | _ => none

/-- `_read_json_file`, of the contents of the file if there is one.  The errors of opening,
decoding and parsing it are caught. -/
def readJsonFile (content : Option Bytes) : P.Obj :=
  let parsed := content.bind fun b => (readText b).toOption.bind (loads P)
  parsed.getD .none

/-- What the calls have in common: their environment and the intent. -/
structure Setting where
  intentId : Str
  ttlSeconds : Int
  intOfFloat : P.Float → Option Int
  intOfStr : Str → Option Int

variable {P}

/-- `_lock_is_stale`; `none` is an exception. -/
def lockIsStale (c : Setting P) (content : Option Bytes) (now : Int) : Option Bool :=
  match readJsonFile P content with
  | .none => some true
  | .dict kvs =>
    let acquiredAt := toInt P c.intOfFloat c.intOfStr ((get kvs acquiredAtKey).getD (.int 0))
    acquiredAt.map fun t => decide (c.ttlSeconds < now - t)
  -- Other values have no `get`.
  | _ => none

/-- What `acquire_mutation_lock` writes.  The document is ASCII, so that encoding it does not
fail. -/
def lockPayload (c : Setting P) (acquiredAt : Int) : Bytes :=
  let payload : P.Obj :=
    .dict [(.str intentIdKey, .str c.intentId), (.str acquiredAtKey, .int acquiredAt)]
  ((dumpsSortedAscii P .compact payload).bind encode).getD []

/-! ### The calls -/

/-- The file-system operation that a call comes to next, or how it ended. -/
inductive Point where
  /-- The first `path.exists()`. -/
  | firstExists
  /-- Reading the lock file for the first staleness test. -/
  | firstRead
  /-- The second `path.exists()`. -/
  | secondExists
  /-- Reading the lock file for the second staleness test. -/
  | secondRead
  /-- `path.unlink(missing_ok=True)` -/
  | unlink
  /-- `path.open("x")` -/
  | create
  /-- `handle.write`, on this file and with this time. -/
  | write (file : Nat) (acquiredAt : Int)
  /-- It returned. -/
  | returned (acquired : Bool)
  /-- It raised an exception. -/
  | raised
  deriving DecidableEq, Repr

def Point.held : Point → Bool
  | .write _ _ => true
  | .returned acquired => acquired
  | _ => false

/-- A file.  Which call created it is not part of the file system; `none` is the one that was there
before all calls. -/
structure LockFile where
  creator : Option Nat
  content : Bytes

structure State where
  /-- The file that the lock path names. -/
  path : Option Nat
  /-- All files that the path named so far. -/
  files : List LockFile
  /-- Where each call stands. -/
  point : Nat → Point

/-- Some lock file, or none, and no call has begun. -/
def initial (content : Option Bytes) : State where
  path := content.map fun _ => 0
  files := content.toList.map (LockFile.mk none)
  point _ := .firstExists

def State.lockFile (s : State) : Option LockFile :=
  s.path.bind fun i => s.files[i]?

/-- The contents that reading the lock path yields. -/
def State.content (s : State) : Option Bytes :=
  s.lockFile.map LockFile.content

def State.goto (s : State) (call : Nat) (p : Point) : State :=
  { s with point := Function.update s.point call p }

/-- A call is scheduled, and this is the time that `_now_epoch_seconds` gives if it asks. -/
structure Action where
  call : Nat
  now : Int

/-- The next file-system operation of a call of `acquire_mutation_lock`, and what it computes before
the one after it. -/
def acquireMutationLock (c : Setting P) (s : State) (a : Action) : State :=
  match s.point a.call with
  | .firstExists => s.goto a.call (if s.path.isSome then .firstRead else .secondExists)
  | .firstRead =>
    match lockIsStale c s.content a.now with
    | some false => s.goto a.call (.returned false)
    | some true => s.goto a.call .secondExists
    | none => s.goto a.call .raised
  | .secondExists => s.goto a.call (if s.path.isSome then .secondRead else .create)
  | .secondRead =>
    match lockIsStale c s.content a.now with
    | some false => s.goto a.call .create
    | some true => s.goto a.call .unlink
    | none => s.goto a.call .raised
  | .unlink => { s with path := none }.goto a.call .create
  | .create =>
    if s.path.isSome then s.goto a.call (.returned false)
    else
      { s with
        path := some s.files.length
        files := s.files ++ [LockFile.mk (some a.call) []] }.goto a.call (.write s.files.length a.now)
  | .write file acquiredAt =>
    { s with
      files := s.files.modify file fun f => { f with content := lockPayload c acquiredAt } }.goto
        a.call (.returned true)
  | .returned _ => s
  | .raised => s

/-! ### The lock is held once -/

def AtMostOne (s : State) : Prop :=
  ∀ p q, s.point p = .returned true → s.point q = .returned true → p = q

def Finished (s : State) : Prop :=
  ∀ p, s.point p = .firstExists ∨ (∃ acquired, s.point p = .returned acquired) ∨
    s.point p = .raised

/-- All times are within one lifetime of a lock. -/
def InWindow (c : Setting P) (opened : Int) (as : List Action) : Prop :=
  ∀ a ∈ as, opened ≤ a.now ∧ a.now ≤ opened + c.ttlSeconds

/-- The step does not remove a lock file that one of the calls has created. -/
def Sparing (s : State) (a : Action) : Prop :=
  s.point a.call = .unlink → ∀ f ∈ s.lockFile, f.creator = none

end Adaad.MutationLock
