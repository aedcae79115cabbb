import Adaad.Governance.Foundation
import Adaad.Tools.MutationFs

/-!
# Mutation transactions

`runtime/tools/mutation_tx.py`: the targets that a transaction applies, the backups it keeps of the
files that were there, and how it is verified, committed and rolled back.

A transaction is used in a `with` block; `exit` is what follows the block.  What a certificate of a
rollback is issued with is returned; that it is issued touches no file of the agent.
-/

namespace Adaad.MutationTx

open Py MutationFs

variable (P : Platform)

structure MutationRecord where
  target : MutationTarget P
  result : MutationApplyResult

/-- What a transaction does not change. -/
structure Config where
  letters : Letters P
  agent : Agent
  txId : Str

/-- A transaction, and the files. -/
structure Tx where
  tree : FileTree
  records : List (MutationRecord P) := []
  /-- A `dict`, from the files to their backups. -/
  backups : List (List Str × List Str) := []
  created : List (List Str) := []
  committed : Bool := false

variable {P}

/-- `rollback_dir` -/
def Config.rollbackDir (cfg : Config P) : List Str :=
  cfg.agent.dir ++ [str ".rollback", cfg.txId]

variable (cfg : Config P)

/-- `MutationTransaction(…)` -/
def start (tree : FileTree) : Option (Tx P) :=
  (tree.mkdirs cfg.rollbackDir).map fun tree => { tree }

/-! ### Applying -/

/-- The backup that `apply` makes of a file. -/
def backUp (s : Tx P) (path : List Str) : Except MutationFs.Fault Unit × Tx P :=
  match PurePath.relativeTo path cfg.agent.root with
  | none => (.error .notRelative, s)
  | some rel =>
    let backupPath := cfg.rollbackDir ++ rel
    match s.tree.mkdirs backupPath.dropLast with
    | none => (.error .osError, s)
    | some tree =>
      match tree.copy2 path backupPath with
      | none => (.error .osError, { s with tree })
      | some tree => (.ok (), { s with tree, backups := s.backups ++ [(path, backupPath)] })

/-- What `apply` does before the target is applied. -/
def prepare (s : Tx P) (path : List Str) : Except MutationFs.Fault Unit × Tx P :=
  if s.tree.pathExists path ∧ path ∉ s.backups.map Prod.fst then backUp cfg s path
  else if ¬ s.tree.pathExists path then (.ok (), { s with created := s.created ++ [path] })
  else (.ok (), s)

/-- `apply` -/
def apply (s : Tx P) (temp : Str) (target : MutationTarget P) :
    Except MutationFs.Fault MutationApplyResult × Tx P :=
  match prepare cfg s (cfg.agent.locate target.path) with
  | (.error e, s) => (.error e, s)
  | (.ok (), s) =>
    match applyTarget cfg.letters cfg.agent s.tree temp target with
    | (.error e, tree) => (.error e, { s with tree })
    | (.ok result, tree) =>
      (.ok result, { s with tree, records := s.records ++ [⟨target, result⟩] })

/-! ### Verification -/

/-- A row of `metadata_checks`. -/
structure MetadataCheck where
  path : List Str
  checksumMatchesFile : Bool
  opsAccounted : Bool
  deriving DecidableEq, Repr

structure Verification where
  ok : Bool
  recordsPresent : Bool
  pathsResolveUnderAgentRoot : Bool
  touchedFileSetStable : Bool
  metadataConsistent : Bool
  /-- `touched_from_targets` and `touched_from_results`, two sets, as they were filled. -/
  requested : List (List Str)
  recorded : List (List Str)
  metadataChecks : List MetadataCheck
  deriving DecidableEq, Repr

/-- `result_resolved.exists() and sha256_prefixed_digest(…) == …` -/
def checksumMatches (t : FileTree) (r : MutationApplyResult) : Bool :=
  (t.file? r.path).any fun f => P.sha256 f.content = r.checksum

/-- `applied` and `skipped` are not negative, being numbers here. -/
def opsAccounted (r : MutationRecord P) : Bool :=
  r.result.applied + r.result.skipped = r.target.ops.length

/-- The path below the directory of the agent, where it is there. -/
def insideOf (path : List Str) : Option (List Str) :=
  if cfg.agent.dir <+: path then some (path.drop cfg.agent.dir.length) else none

/-- The target of a record, found from the directory of the agent. -/
def targetResolved (r : MutationRecord P) : List Str :=
  (PurePath.parse r.target.path).resolve cfg.agent.dir

def metadataCheck (t : FileTree) (r : MutationRecord P) : MetadataCheck where
  path := (insideOf cfg r.result.path).getD r.result.path
  checksumMatchesFile := checksumMatches (P := P) t r.result
  opsAccounted := opsAccounted r

/-- `verify`, up to the check of its outcome. -/
def verification (s : Tx P) : Verification :=
  let requested := s.records.filterMap fun r => insideOf cfg (targetResolved cfg r)
  let recorded := s.records.filterMap fun r => insideOf cfg r.result.path
  let checks := s.records.map (metadataCheck cfg s.tree)
  let pathResolutionOk := s.records.all fun r =>
    (insideOf cfg (targetResolved cfg r)).isSome && (insideOf cfg r.result.path).isSome
  let metadataConsistent := checks.all fun c => c.checksumMatchesFile && c.opsAccounted
  let recordsPresent := s.records ≠ []
  let touchedSetStable :=
    if recordsPresent then
      requested.all (· ∈ recorded) && recorded.all (· ∈ requested) && recorded ≠ []
    else true
  { ok := pathResolutionOk && metadataConsistent && touchedSetStable
    recordsPresent
    pathsResolveUnderAgentRoot := pathResolutionOk
    touchedFileSetStable := touchedSetStable
    metadataConsistent
    requested
    recorded
    metadataChecks := checks }

/-- `verify` -/
def verify (s : Tx P) : Except MutationFs.Fault Verification :=
  if (verification cfg s).ok then .ok (verification cfg s)
  else .error (.target (str "transaction_verify_failed"))

/-! ### Commit and rollback -/

/-- `if self.rollback_dir.exists(): shutil.rmtree(self.rollback_dir)` -/
def clearRollbackDir (t : FileTree) : FileTree :=
  if t.pathExists cfg.rollbackDir then t.rmtree cfg.rollbackDir else t

/-- `commit` -/
def commit (s : Tx P) : Tx P :=
  { s with committed := true, tree := clearRollbackDir cfg s.tree }

/-- `a <= b` on paths: by their components. -/
def pathLe : List Str → List Str → Bool
  | [], _ => true
  | _ :: _, [] => false
  | a :: s, b :: t => (strLe a b && a ≠ b) || (a = b && pathLe s t)

/-- A row of the snapshot of `_rollback_snapshot_digest`. -/
def snapshotRow (t : FileTree) (path : List Str) : Except MutationFs.Fault P.Obj := do
  match PurePath.relativeTo path cfg.agent.root with
  | none => throw .notRelative
  | some rel =>
    let digest ← match t.node path with
      | none => pure []
      | some (.file f) => pure (str "sha256:" ++ P.sha256 f.content)
      | some .dir => throw .osError
    return .dict [(.str (str "path"), .str (asPosix rel)),
      (.str (str "exists"), .bool (t.pathExists path)), (.str (str "digest"), .str digest)]

/-- `_rollback_snapshot_digest` -/
def rollbackSnapshotDigest (t : FileTree) (paths : List (List Str)) : Except MutationFs.Fault Str := do
  let snapshot ← (paths.insertionSort fun a b => pathLe a b = true).mapM (snapshotRow cfg t)
  (canonicalDigest P (.list snapshot)).mapError .raised

/-- `sorted({*self._backups.keys(), *self._created})`, before it is sorted. -/
def touched (s : Tx P) : List (List Str) :=
  (s.backups.map Prod.fst ++ s.created).dedup

/-- An iteration of the loop over the created files. -/
def removeCreated (t : FileTree) (created : List Str) : FileTree :=
  (t.unlink created).getD t

/-- An iteration of the loop over the backups: the tree, and how many were restored. -/
def restoreBackup (s : FileTree × Nat) (b : List Str × List Str) : FileTree × Nat :=
  if s.1.pathExists b.2 then
    match s.1.copy2 b.2 b.1 with
    | none => s
    | some t => (t, s.2 + 1)
  else s

/-- The files after the two loops of `rollback`, and how many backups were restored. -/
def restored (s : Tx P) : FileTree × Nat :=
  s.backups.foldl restoreBackup (s.created.foldl removeCreated s.tree, 0)

/-- What the certificate of a rollback is issued with. -/
structure Certificate where
  mutationId : Str
  priorStateDigest : Str
  restoredStateDigest : Str
  backupsRestored : Bool
  createdPathsRemoved : Bool
  recordsCount : Nat
  deriving DecidableEq, Repr

/-- `rollback` -/
def rollback (s : Tx P) : Except MutationFs.Fault Certificate × Tx P :=
  match rollbackSnapshotDigest cfg s.tree (touched s) with
  | .error e => (.error e, s)
  | .ok priorStateDigest =>
    let tree := clearRollbackDir cfg (restored s).1
    let s' := { s with tree }
    match rollbackSnapshotDigest cfg tree (touched s) with
    | .error e => (.error e, s')
    | .ok restoredStateDigest =>
      (.ok {
        mutationId := cfg.txId
        priorStateDigest
        restoredStateDigest
        backupsRestored := (restored s).2 = s.backups.length
        createdPathsRemoved := s.created.all fun path => !tree.pathExists path
        recordsCount := s.records.length }, s')

/-- `__exit__` -/
def exit (raised : Bool) (s : Tx P) : Tx P :=
  if raised ∨ s.committed = false then (rollback cfg s).2 else s

/-! ### A `with` block -/

/-- What is called in the block. -/
inductive Call (P : Platform) where
  | apply (temp : Str) (target : MutationTarget P)
  | verify
  | commit
  | rollback

/-- A call that raises may be caught in the block. -/
def step (s : Tx P) : Call P → Tx P
  | .apply temp target => (apply cfg s temp target).2
  | .verify => s
  | .commit => commit cfg s
  | .rollback => (rollback cfg s).2

end Adaad.MutationTx
