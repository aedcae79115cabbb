import Adaad.Py.FileTree
import Adaad.Py.Json.Loads
import Adaad.Py.Letters

/-!
# Mutations of the files of an agent

`runtime/tools/mutation_fs.py`: what a target of a mutation may be, and how it is applied, with
`_apply_ops` of `runtime/tools/mutation_guard.py`, the operations on the document.

Values are not shared between operations.  The name of the temporary file is given; a name that is
taken is not used.
-/

namespace Adaad.MutationFs

open Py

variable (P : Platform)

inductive Fault where
  /-- `MutationTargetError` -/
  | target (message : Str)
  | raised (e : Exc)
  | keyError
  | indexError
  /-- `int(text)` of a text that is no number. -/
  | notAnInt
  /-- `path.relative_to(p)` of a path that is not below `p`. -/
  | notRelative
  | osError
  deriving DecidableEq, Repr

/-! ### Operations on a document -/

variable {P}

def isText : P.Obj → Str → Bool
  | .str s, t => s = t
  | _, _ => false

/-- `part.replace(f"~{c}", …)` -/
def replaceTilde (c : Nat) (new : Nat) : Str → Str
  | 126 :: d :: s => if d = c then new :: replaceTilde c new s else 126 :: replaceTilde c new (d :: s)
  | d :: s => d :: replaceTilde c new s
  | [] => []

/-- `parse_ptr` -/
def parsePtr (p : P.Obj) : Except Fault (List Str) :=
  match p with
  | .str (47 :: s) =>
    let r := cutAll (· == 47) s
    .ok ((r.1 ++ [r.2]).map fun x => replaceTilde 48 126 (replaceTilde 49 47 x))
  | .str _ => .error (.raised (.valueError (str "JSON pointer must start with '/'.")))
  | _ => .error (.raised .attributeError)

variable (u : Letters P)

/-- The place of `xs[int(k)]` in a list of the length. -/
def indexIn (length : Nat) (k : Str) : Except Fault Nat :=
  match intOf u k with
  | none => .error .notAnInt
  | some i =>
    if 0 ≤ i ∧ i < length then .ok i.toNat
    else if i < 0 ∧ 0 ≤ length + i then .ok (length + i).toNat
    else .error .indexError

/-- The place of `xs.insert(int(k), x)`. -/
def insertIndex (length : Nat) (k : Str) : Except Fault Nat :=
  match intOf u k with
  | none => .error .notAnInt
  | some i => .ok (if i < 0 then (length + i).toNat else min i.toNat length)

def isUpsert (kind : P.Obj) : Bool :=
  isText kind (str "add") || isText kind (str "set")

/-- What an operation does to the parent of what its pointer names. -/
def applyLeaf (kind value parent : P.Obj) (leaf : Str) : Except Fault P.Obj :=
  if isUpsert kind || isText kind (str "replace") then
    match parent with
    | .list xs =>
      if isText kind (str "add") then
        (insertIndex u xs.length leaf).map fun i => .list (xs.insertIdx i value)
      else (indexIn u xs.length leaf).map fun i => .list (xs.set i value)
    | .dict ms => .ok (.dict (set ms leaf value))
    | _ => .error (.raised .typeError)
  else if isText kind (str "remove") then
    match parent with
    | .list xs => (indexIn u xs.length leaf).map fun i => .list (xs.eraseIdx i)
    | .dict ms =>
      if (get ms leaf).isSome then .ok (.dict (without ms leaf)) else .error .keyError
    | _ => .error (.raised .typeError)
  else .error (.raised (.valueError (str "Unsupported op: " ++ toStr P kind)))

/-- `resolve_parent`, and the operation on what it finds. -/
def applyAt (kind value : P.Obj) : List Str → P.Obj → Except Fault P.Obj
  | [], _ => .error (.raised (.valueError (str "Path empty.")))
  | [leaf], parent => applyLeaf u kind value parent leaf
  | k :: ks, .list xs =>
    match indexIn u xs.length k with
    | .error e => .error e
    | .ok i => (applyAt kind value ks (xs[i]?.getD .none)).map fun x => .list (xs.set i x)
  | k :: ks, .dict ms =>
    match get ms k with
    | some child => (applyAt kind value ks child).map fun x => .dict (set ms k x)
    | none =>
      -- `create_missing`
      if isUpsert kind then (applyAt kind value ks (.dict [])).map fun x => .dict (set ms k x)
      else .error .keyError
  | _ :: _, _ => .error (.raised .typeError)

def opKey : Str := str "op"
def pathKey : Str := str "path"
def valueKey : Str := str "value"

/-- The body of the loop of `_apply_ops`. -/
def applyOp (data op : P.Obj) : Except Fault P.Obj :=
  match op with
  | .dict d =>
    match get d opKey, get d pathKey with
    | some kind, some path => do
      let parts ← parsePtr path
      applyAt u kind ((get d valueKey).getD .none) parts data
    | _, _ => .error .keyError
  | _ => .error (.raised .typeError)

/-- `_apply_ops`: the document, and how many operations were applied and skipped. -/
def applyOps (data : P.Obj) (ops : List P.Obj) : Except Fault (P.Obj × Nat × Nat) :=
  ops.foldlM (fun s op => (applyOp u s.1 op).map fun data => (data, s.2.1 + 1, s.2.2)) (data, 0, 0)

/-! ### The document as text -/

/-- A line break and the indentation of a level. -/
def newline (level : Nat) : Str :=
  lf :: List.replicate (2 * level) 32

mutual

/-- `json.dumps(value, indent=2, ensure_ascii=False)`, at a level. -/
def dumpsIndent (level : Nat) : P.Obj → Str
  | .none => str "null"
  | .bool b => boolJson b
  | .int i => intText i
  | .float x => floatJson P x
  | .str s => quoteStr s
  | .list [] => str "[]"
  | .list (x :: xs) =>
    91 :: (newline (level + 1) ++ (dumpsIndent (level + 1) x ++ dumpsIndentItems level xs))
  | .tuple [] => str "[]"
  | .tuple (x :: xs) =>
    91 :: (newline (level + 1) ++ (dumpsIndent (level + 1) x ++ dumpsIndentItems level xs))
  | .dict [] => str "{}"
  | .dict ((k, v) :: ms) =>
    123 :: (newline (level + 1) ++ (quoteStr (keyName P k) ++ (str ": " ++
      (dumpsIndent (level + 1) v ++ dumpsIndentMembers level ms))))

/-- The items after the first, and the closing bracket. -/
def dumpsIndentItems (level : Nat) : List P.Obj → Str
  | [] => newline level ++ [93]
  | x :: xs =>
    44 :: (newline (level + 1) ++ (dumpsIndent (level + 1) x ++ dumpsIndentItems level xs))

/-- The members after the first, and the closing brace. -/
def dumpsIndentMembers (level : Nat) : Members P.Float → Str
  | [] => newline level ++ [125]
  | (k, v) :: ms =>
    44 :: (newline (level + 1) ++ (quoteStr (keyName P k) ++ (str ": " ++
      (dumpsIndent (level + 1) v ++ dumpsIndentMembers level ms))))

end

/-! ### Targets -/

variable (P) in
structure MutationTarget where
  path : Str
  targetType : Str
  ops : List P.Obj
  hashPreimage : Str := []

/-- The directory of an agent, and the working directory. -/
structure Agent where
  root : PurePath
  cwd : List Str

/-- `agent_root.resolve()` -/
def Agent.dir (a : Agent) : List Str :=
  a.root.resolve a.cwd

/-- `(agent_root / path).resolve()` -/
def Agent.locate (a : Agent) (path : Str) : List Str :=
  (a.root.join path).resolve a.cwd

/-- `ALLOWED_TARGETS.get(target_type)` -/
def allowedTargets (targetType : Str) : Option (List Str) :=
  if targetType = str "dna" then some [str "dna.json"]
  else if targetType = str "config" then some [str "config/"]
  else if targetType = str "skills" then some [str "skills/"]
  else none

/-- `path.as_posix()`, of a path without a root. -/
def asPosix (parts : List Str) : Str :=
  if parts = [] then dot else List.intercalate [slash] parts

def isAllowed (rel allowedPrefix : Str) : Bool :=
  (allowedPrefix.getLast? = some slash && allowedPrefix.isPrefixOf rel) || rel = allowedPrefix

/-- `_normalize_target_path` -/
def normalizeTargetPath (a : Agent) (targetPath : Str) : Except Fault (List Str) :=
  if (PurePath.parse targetPath).absolute then .error (.target (str "absolute_path_forbidden"))
  else if ¬ a.dir <+: a.locate targetPath then .error (.target (str "path_traversal_detected"))
  else .ok (a.locate targetPath)

/-- The checks of `_validate_target` on the path that was found. -/
def checkPath (t : FileTree) (allowlist : List Str) (path rel : List Str) : Except Fault Unit :=
  let suffix := PurePath.suffixOf (path.getLast?.getD [])
  if ¬ allowlist.any (isAllowed (asPosix rel)) then .error (.target (str "path_not_allowed"))
  else if suffix = str ".py" then .error (.target (str "python_mutation_not_allowed"))
  else if t.node path = some .dir ∨ (t.file? path).any File.executable then
    .error (.target (str "executable_mutation_not_allowed"))
  else if suffix ≠ str ".json" ∧ suffix ≠ [] then
    .error (.target (str "non_json_target_forbidden"))
  else .ok ()

/-- `_validate_target` -/
def validateTarget (a : Agent) (t : FileTree) (target : MutationTarget P) :
    Except Fault (List Str) := do
  if target.path = [] then throw (.target (str "missing_path"))
  if target.targetType = [] then throw (.target (str "missing_target_type"))
  let path ← normalizeTargetPath a target.path
  match allowedTargets target.targetType with
  | none => throw (.target (str "target_type_not_allowed"))
  | some allowlist =>
    match PurePath.relativeTo path a.root with
    | none => throw .notRelative
    | some rel =>
      checkPath t allowlist path rel
      return path

/-! ### Application -/

structure MutationApplyResult where
  path : List Str
  applied : Nat
  skipped : Nat
  checksum : Str
  deriving DecidableEq, Repr

def readDocument (target : MutationTarget P) (original : Bytes) : Except Fault P.Obj :=
  if target.hashPreimage ≠ [] ∧ target.hashPreimage ≠ P.sha256 original then
    .error (.target (str "hash_preimage_mismatch"))
  else if original = [] then .ok (.dict [])
  else
    match decode original with
    | none => .error (.raised .unicodeDecodeError)
    | some text =>
      match loads P text with
      | none => .error (.target (str "invalid_json:" ++ P.jsonErrorText text))
      | some data => .ok data

/-- `b"{}"` -/
def emptyDocument : Bytes := [123, 125]

/-- What `apply_target` makes of a file, before it writes: the document as text and the numbers of
operations. -/
def mutated (t : FileTree) (path : List Str) (target : MutationTarget P) :
    Except Fault (Str × Nat × Nat) := do
  let data ← readDocument target (((t.file? path).map File.content).getD emptyDocument)
  let (data, applied, skipped) ← applyOps u data target.ops
  return (dumpsIndent 0 data, applied, skipped)

/-- The write of `apply_target`, through a temporary file beside the file.  A text that cannot be
encoded leaves the temporary file. -/
def replaceFile (t : FileTree) (path : List Str) (temp : Str) (serialized : Str) :
    Except Fault Bytes × FileTree :=
  match t.mkdirs path.dropLast with
  | none => (.error .osError, t)
  | some t =>
    match encode serialized with
    | none =>
      (.error (.raised .unicodeEncodeError),
        if t.pathExists (path.dropLast ++ [temp]) then t
        else (t.write (path.dropLast ++ [temp]) { content := [] }).getD t)
    | some b =>
      match t.write path { content := b } with
      | none => (.error .osError, t)
      | some t => (.ok b, t)

/-- `apply_target` -/
def applyTarget (a : Agent) (t : FileTree) (temp : Str) (target : MutationTarget P) :
    Except Fault MutationApplyResult × FileTree :=
  match validateTarget a t target with
  | .error e => (.error e, t)
  | .ok path =>
    match mutated u t path target with
    | .error e => (.error e, t)
    | .ok (serialized, applied, skipped) =>
      match replaceFile t path temp serialized with
      | (.error e, t) => (.error e, t)
      | (.ok b, t) => (.ok { path, applied, skipped, checksum := P.sha256 b }, t)

end Adaad.MutationFs
