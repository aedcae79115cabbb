import Adaad.Py.FileTree
import Adaad.Py.TextFile

/-!
# The patch applicator

`runtime/mutation/ast_substrate/patch_applicator.py`: a file is overwritten, read back and checked,
and restored from a backup beside it where that fails.

Paths are resolved, and permissions are left out: a step of the write phase that fails is a
parameter (`Fault`), as are the texts of exceptions, and the parsers, which are pure.
-/

namespace Adaad.PatchApplicator

open Py

structure ASTDiffPatch where
  targetFile : Str
  beforeAstHash : Str
  afterAstHash : Str
  afterSource : Str

structure ApplyResult where
  success : Bool := false
  sandboxOnly : Bool := false
  divergence : Bool := false
  rollback : Bool := false
  beforeHash : Str := []
  afterHash : Str := []
  expectedHash : Str := []
  error : Str := []

/-- What `ast.parse` raises. -/
structure ParseFailure where
  isSyntaxError : Bool
  text : Str

/-- The step of the write phase that fails. -/
inductive Fault where
  | mkdir
  | openFile
  /-- After this many bytes of the output. -/
  | write (written : Nat)
  | readBack
  deriving DecidableEq

structure Env where
  cwd : List Str
  sandboxOnly : Bool
  /-- `_validate_libcst` -/
  validateLibcst : Str → Option Str
  /-- `_ast_hash(ast.parse(source))` -/
  astHash : Str → Except ParseFailure Str
  fault : Option Fault
  errorText : Str

variable (env : Env) (t : FileTree) (patch : ASTDiffPatch) (target : List Str)

/-- `target`, resolved -/
def targetOf (baseDir : Str) : List Str :=
  if baseDir = [] then (PurePath.parse patch.targetFile).resolve env.cwd
  else ((PurePath.parse baseDir).join patch.targetFile).resolve env.cwd

/-- `before_hash`; it is `none` where an exception is raised. -/
def beforeHash : Option Str :=
  match t.file? target with
  -- There is nothing, or a directory, which cannot be read.
  | none => some patch.beforeAstHash
  | some f =>
    match readText f.content with
    | .error _ => none
    | .ok s =>
      match env.astHash s with
      | .ok h => some h
      | .error e => if e.isSyntaxError then some patch.beforeAstHash else none

/-- `apply` up to the write phase: what it returns (nothing where it raises), or the hashes before
and after with which it goes on. -/
def precheck : Except (Option ApplyResult) (Str × Str) :=
  match env.validateLibcst patch.afterSource with
  | some e => .error (some {
      sandboxOnly := env.sandboxOnly, expectedHash := patch.afterAstHash
      error := str "LibCST parse error in after_source: " ++ e })
  | none =>
    match beforeHash env t patch target with
    | none => .error none
    | some before =>
      if before ≠ [] ∧ before ≠ patch.beforeAstHash then
        .error (some {
          sandboxOnly := env.sandboxOnly, beforeHash := before, expectedHash := patch.afterAstHash
          error := str "SANDBOX-DIV-0: before_hash mismatch — disk=" ++ before.take 16 ++
            str "... expected=" ++ patch.beforeAstHash.take 16 ++ str "..." })
      else
        match env.astHash patch.afterSource with
        | .error e =>
          if e.isSyntaxError then
            .error (some {
              sandboxOnly := env.sandboxOnly, beforeHash := before
              expectedHash := patch.afterAstHash
              error := str "SyntaxError in after_source: " ++ e.text })
          else .error none
        | .ok after =>
          if after ≠ patch.afterAstHash then
            .error (some {
              sandboxOnly := env.sandboxOnly, divergence := true, beforeHash := before
              afterHash := after, expectedHash := patch.afterAstHash
              error := str "SANDBOX-DIV-0: after_hash divergence — computed=" ++ after.take 16 ++
                str "... stored=" ++ patch.afterAstHash.take 16 ++ str "..." })
          else if env.sandboxOnly then
            .error (some {
              success := true, sandboxOnly := true, beforeHash := before, afterHash := after
              expectedHash := patch.afterAstHash })
          else .ok (before, after)

/-! ### The write phase -/

def output (source : Str) : Bytes :=
  match env.fault with
  | some (.write n) => ((encode source).getD []).take n
  | _ => (encode source).getD []

/-- The hash of what is read back, or the text of an exception. -/
def readBack (source : Str) : Except Str Str :=
  if env.fault.isSome ∨ encode source = none then .error env.errorText
  else
    match readText (output env source) with
    | .error _ => .error env.errorText
    | .ok s =>
      match env.astHash s with
      | .error e => .error e.text
      | .ok h => .ok h

/-- What is under `try`. -/
def writeTarget (source : Str) : Except Str Str × FileTree :=
  if env.fault = some .mkdir then (.error env.errorText, t)
  else
    match t.mkdirs target.dropLast with
    | none => (.error env.errorText, t)
    | some t =>
      if env.fault = some .openFile then (.error env.errorText, t)
      else
        match t.write target
            { (t.file? target).getD { content := [] } with content := output env source } with
        | none => (.error env.errorText, t)
        | some t => (readBack env source, t)

/-- `target.with_suffix(target.suffix + ".bak")` -/
def backupOf : List Str :=
  target.dropLast ++ [target.getLast?.getD [] ++ str ".bak"]

/-- `if backup and backup.exists(): …` -/
def ifBackup (backup : Option (List Str)) (t : FileTree) (f : List Str → Option FileTree) :
    Option FileTree :=
  match backup with
  | some b => if t.pathExists b then f b else some t
  | none => some t

/-- The end of the `try` statement: `r` is returned, unless an exception is raised. -/
def finish (backup : Option (List Str)) (r : Option ApplyResult) (t : FileTree) :
    Option ApplyResult × FileTree :=
  match ifBackup backup t t.unlink with
  | some t => (r, t)
  | none => (none, t)

/-- The file is copied back, and `r` returned. -/
def rollBack (backup : Option (List Str)) (r : ApplyResult) (t : FileTree) :
    Option ApplyResult × FileTree :=
  match ifBackup backup t fun b => t.copy2 b target with
  | some t => finish backup (some r) t
  | none => finish backup none t

/-- `_write_with_rollback` -/
def writeWithRollback (before expected : Str) : Option ApplyResult × FileTree :=
  let backup := if t.pathExists target then some (backupOf target) else none
  match if t.pathExists target then t.copy2 target (backupOf target) else some t with
  | none => (none, t)
  | some t =>
    match writeTarget env t target patch.afterSource with
    | (.ok written, t) =>
      if written ≠ expected then
        rollBack target backup {
          divergence := true, rollback := true, beforeHash := before, afterHash := written
          expectedHash := expected
          error := str "SANDBOX-DIV-0: post-write divergence; rollback executed" } t
      else
        finish backup (some {
          success := true, beforeHash := before, afterHash := written, expectedHash := expected }) t
    | (.error e, t) =>
      rollBack target backup {
        rollback := backup.isSome, beforeHash := before, expectedHash := expected, error := e } t

/-- `PatchApplicator.apply`; nothing is returned where it raises. -/
def apply (baseDir : Str) : Option ApplyResult × FileTree :=
  let target := targetOf env patch baseDir
  match precheck env t patch target with
  | .error r => (r, t)
  | .ok (before, expected) => writeWithRollback env t patch target before expected

/-! ### What is expected -/

def contents (q : List Str) : Option Bytes :=
  (t.file? q).map File.content

/-- A patch that succeeds changes its target alone, and none in the sandbox; any other changes
nothing. -/
def AllOrNothing (target : List Str) (r : Option ApplyResult × FileTree) : Prop :=
  (∀ q ≠ target, contents r.2 q = contents t q) ∧
    contents r.2 target =
      if r.1.any ApplyResult.success ∧ ¬ env.sandboxOnly then encode patch.afterSource
      else contents t target

def Opens : Prop :=
  env.fault ≠ some .mkdir ∧ env.fault ≠ some .openFile ∧
    ∀ q, q <+: target.dropLast → t.file? q = none

/-- The whole source is written, and has the expected hash when it is read back. -/
def Lands : Prop :=
  env.fault = none ∧ ∃ b s, encode patch.afterSource = some b ∧ readText b = .ok s ∧
    env.astHash s = .ok patch.afterAstHash

/-- Nothing is lost by the write phase.  A file that is new has to land, or not to be made at all;
for one that is there, nothing may be in the place of the backup.  (A directory is harmless there if the
copy into it fails or changes nothing, and neither does the output.) -/
def Spares : Prop :=
  match t.node target with
  | none => Opens env t target → Lands env patch
  | some .dir => True
  | some (.file f) =>
    t.node (backupOf target) = none ∨
      t.node (backupOf target) = some .dir ∧
        (t.node (backupOf target ++ [target.getLast?.getD []]) = some .dir ∨
          contents t (backupOf target ++ [target.getLast?.getD []]) = some f.content ∧
            (Opens env t target → output env patch.afterSource = f.content))

/-! ### The steps -/

variable {env t patch target} {source : Str}

variable (env source) in
theorem writeTarget_cases (hnil : target ≠ []) (hdir : t.node target ≠ some .dir) :
    (¬ Opens env t target ∧ ∃ t', writeTarget env t target source = (.error env.errorText, t') ∧
      (∀ q, t'.file? q = t.file? q) ∧ ∀ q, t.node q ≠ none → t'.node q = t.node q) ∨
    Opens env t target ∧ ∃ t' f, writeTarget env t target source = (readBack env source, t') ∧
      t'.node target = some (.file f) ∧ f.content = output env source ∧
      (∀ q ≠ target, t'.file? q = t.file? q) ∧
      ∀ q ≠ target, t.node q ≠ none → t'.node q = t.node q := by
  unfold writeTarget Opens
  by_cases hmkdir : env.fault = some .mkdir
  · rw [if_pos hmkdir]
    exact .inl ⟨fun h => h.1 hmkdir, t, rfl, fun _ => rfl, fun _ _ => rfl⟩
  rw [if_neg hmkdir]
  cases hmk : t.mkdirs target.dropLast with
  | none =>
    refine .inl ⟨fun h => ?_, t, rfl, fun _ => rfl, fun _ _ => rfl⟩
    have hfree : ¬ ∃ q ∈ target.dropLast.inits, (t.file? q).isSome = true := by
      rintro ⟨q, hq, hsome⟩
      rw [h.2.2 q ((List.mem_inits _ _).mp hq)] at hsome
      cases hsome
    rw [FileTree.mkdirs, dif_neg hfree] at hmk
    cases hmk
  | some t₁ =>
    dsimp only
    have hfiles := FileTree.file?_mkdirs hmk
    have hstay : ∀ q, t.node q ≠ none → t₁.node q = t.node q :=
      fun q hq => FileTree.node_mkdirs_of_ne_none hmk hq
    by_cases hopen : env.fault = some .openFile
    · rw [if_pos hopen]
      exact .inl ⟨fun h => h.2.1 hopen, t₁, rfl, hfiles, hstay⟩
    · rw [if_neg hopen]
      have hshort : ¬ target <+: target.dropLast := by
        intro h
        have hle := h.length_le
        have hpos := List.length_pos_iff.mpr hnil
        rw [List.length_dropLast] at hle
        omega
      have htakes : t₁.Takes target := by
        refine ⟨hnil, ?_, ?_⟩
        · rw [FileTree.node_mkdirs hmk, if_pos List.prefix_rfl]
        · rwa [FileTree.node_mkdirs hmk, if_neg hshort]
      obtain ⟨t₂, ht₂⟩ := FileTree.exists_write
        { (t₁.file? target).getD { content := [] } with content := output env source } htakes
      rw [ht₂]
      have hnode := FileTree.node_write ht₂
      refine .inr ⟨⟨hmkdir, hopen, fun q hq => FileTree.not_file_of_mkdirs hmk hq⟩, t₂, _, rfl,
        (hnode target).trans (if_pos rfl), rfl, fun q hq => ?_, fun q hq hsome => ?_⟩
      · rw [← hfiles q, FileTree.file?, FileTree.file?, hnode q, if_neg hq]
      · rw [hnode q, if_neg hq, hstay q hsome]

theorem readBack_eq_ok_iff {h : Str} : readBack env source = .ok h ↔
    env.fault = none ∧ ∃ b s, encode source = some b ∧ readText b = .ok s ∧
      env.astHash s = .ok h := by
  unfold readBack output
  cases hfault : env.fault with
  | some fault => simp
  | none =>
    cases hb : encode source with
    | none => simp
    | some b =>
      cases hs : readText b with
      | error e => simp [hs]
      | ok s => cases hh : env.astHash s <;> simp [hs, hh]

theorem output_of_readBack {h : Str} (hread : readBack env source = .ok h) :
    encode source = some (output env source) := by
  obtain ⟨hfault, b, -, hb, -⟩ := readBack_eq_ok_iff.mp hread
  unfold output
  rw [hfault, hb]
  rfl

variable (env t patch target) in
theorem precheck_cases :
    (∃ r, precheck env t patch target = .error r ∧
      (r.any ApplyResult.success = true → env.sandboxOnly = true)) ∨
    ∃ before, precheck env t patch target = .ok (before, patch.afterAstHash) ∧
      env.sandboxOnly = false := by
  unfold precheck
  cases env.validateLibcst patch.afterSource with
  | some e => exact .inl ⟨_, rfl, fun h => by cases h⟩
  | none =>
    cases beforeHash env t patch target with
    | none => exact .inl ⟨_, rfl, fun h => by cases h⟩
    | some before =>
      dsimp only
      by_cases hbefore : before ≠ [] ∧ before ≠ patch.beforeAstHash
      · rw [if_pos hbefore]
        exact .inl ⟨_, rfl, fun h => by cases h⟩
      rw [if_neg hbefore]
      cases env.astHash patch.afterSource with
      | error e =>
        left
        dsimp only
        split_ifs <;> exact ⟨_, rfl, fun h => by cases h⟩
      | ok after =>
        dsimp only
        by_cases hafter : after ≠ patch.afterAstHash
        · rw [if_pos hafter]
          exact .inl ⟨_, rfl, fun h => by cases h⟩
        rw [if_neg hafter]
        cases env.sandboxOnly with
        | true => exact .inl ⟨_, rfl, fun _ => rfl⟩
        | false =>
          rw [not_not.mp hafter]
          exact .inr ⟨before, rfl, rfl⟩

theorem exists_concat {f : File} (h : t.node target = some (.file f)) :
    ∃ dir name, target = dir ++ [name] ∧ t.node dir = some .dir := by
  rcases List.eq_nil_or_concat target with rfl | ⟨dir, name, rfl⟩
  · rw [t.node_nil] at h
    cases h
  · rw [List.concat_eq_append] at h
    exact ⟨dir, name, List.concat_eq_append, t.node_parent dir name (by rw [h]; simp)⟩

section Backup

variable {backup : List Str} {f g : File} {r : ApplyResult}

theorem finish_spec (hb : t.node backup = some (.file f)) (r : Option ApplyResult) :
    ∃ t', finish (some backup) r t = (r, t') ∧
      ∀ q, t'.node q = if q = backup then none else t.node q := by
  obtain ⟨t', ht', hnode⟩ := FileTree.unlink_of_file hb
  refine ⟨t', ?_, hnode⟩
  unfold finish ifBackup FileTree.pathExists
  dsimp only
  rw [hb, Option.isSome_some, if_pos rfl, ht']

theorem rollBack_spec (hb : t.node backup = some (.file f)) (ht : t.node target = some (.file g))
    (hne : target ≠ backup) (r : ApplyResult) :
    ∃ t', rollBack target (some backup) r t = (some r, t') ∧
      ∀ q, t'.node q = if q = backup then none else if q = target then some (.file f)
        else t.node q := by
  obtain ⟨dir, name, rfl, hparent⟩ := exists_concat ht
  have hcopy : t.copyTarget backup (dir ++ [name]) = dir ++ [name] := if_neg (by rw [ht]; simp)
  have htakes : t.Takes (dir ++ [name]) := by
    refine ⟨by simp, ?_, by rw [ht]; simp⟩
    rwa [List.dropLast_concat]
  obtain ⟨t₁, ht₁⟩ := FileTree.exists_write f htakes
  have hnode := FileTree.node_write ht₁
  obtain ⟨t₂, ht₂, hnode₂⟩ := finish_spec (r := some r) ((hnode backup).trans
    ((if_neg hne.symm).trans hb))
  refine ⟨t₂, ?_, fun q => by rw [hnode₂ q, hnode q]⟩
  unfold rollBack ifBackup FileTree.pathExists
  dsimp only
  rw [hb, Option.isSome_some, if_pos rfl, FileTree.copy2_eq_some.mpr ⟨f, hb, by rw [hcopy, ht₁]⟩]
  exact ht₂

end Backup

theorem allOrNothing_of_files {r : Option ApplyResult} {t' : FileTree}
    (hr : r.any ApplyResult.success = false) : AllOrNothing env t patch target (r, t') ↔
      ∀ q, contents t' q = contents t q := by
  unfold AllOrNothing
  rw [if_neg (by rw [hr]; exact fun h => Bool.false_ne_true h.1)]
  refine ⟨fun h q => ?_, fun h => ⟨fun q _ => h q, h target⟩⟩
  by_cases hq : q = target
  · rw [hq]
    exact h.2
  · exact h.1 q hq

theorem allOrNothing_new_iff (h : t.node target = none) (hsandbox : env.sandboxOnly = false)
    (before : Str) :
    AllOrNothing env t patch target
        (writeWithRollback env t patch target before patch.afterAstHash) ↔
      (Opens env t target → Lands env patch) := by
  have hnil : target ≠ [] := by
    rintro rfl
    rw [t.node_nil] at h
    cases h
  have hnone : contents t target = none := by
    rw [contents, FileTree.file?, h]
    rfl
  unfold writeWithRollback FileTree.pathExists
  rw [h, Option.isSome_none, if_neg Bool.false_ne_true, if_neg Bool.false_ne_true]
  dsimp only
  obtain ⟨hopens, t', hwrite, hfiles, -⟩ | ⟨hopens, t', f, hwrite, hf, hcontent, hfiles, -⟩ :=
    writeTarget_cases env patch.afterSource hnil (by rw [h]; simp)
  · rw [hwrite]
    refine iff_of_true ((allOrNothing_of_files rfl).mpr fun q => ?_)
      fun hopen => absurd hopen hopens
    rw [contents, hfiles q]
    rfl
  · have hlands : Lands env patch ↔ readBack env patch.afterSource = .ok patch.afterAstHash :=
      readBack_eq_ok_iff.symm
    have hnew : contents t' target = some (output env patch.afterSource) := by
      rw [contents, FileTree.file?_eq_some.mpr hf, Option.map_some, hcontent]
    rw [hwrite, forall_prop_of_true hopens, hlands]
    -- A file that is made and does not land stays.
    have hstays : ∀ r : ApplyResult, r.success = false →
        ¬ AllOrNothing env t patch target (some r, t') := by
      intro r hr hall
      have hsame := (allOrNothing_of_files (by exact hr)).mp hall target
      rw [hnew, hnone] at hsame
      cases hsame
    cases hread : readBack env patch.afterSource with
    | error e => exact iff_of_false (hstays _ rfl) fun h => by cases h
    | ok written =>
      dsimp only
      by_cases hne : written ≠ patch.afterAstHash
      · rw [if_pos hne]
        exact iff_of_false (hstays _ rfl) fun h => hne (Except.ok.inj h)
      · rw [if_neg hne]
        refine iff_of_true ⟨fun q hq => ?_, ?_⟩ (by rw [not_not.mp hne])
        · show contents t' q = contents t q
          rw [contents, hfiles q hq]
          rfl
        · rw [if_pos ⟨rfl, by rw [hsandbox]; exact Bool.false_ne_true⟩, output_of_readBack hread]
          exact hnew

section OldFile

variable {f : File} (h : t.node target = some (.file f))

include h

theorem ne_nil_of_file : target ≠ [] := by
  obtain ⟨dir, name, heq, -⟩ := exists_concat h
  rw [heq]
  simp

theorem backupOf_ne : backupOf target ≠ target := by
  obtain ⟨dir, name, rfl, -⟩ := exists_concat h
  intro heq
  unfold backupOf at heq
  rw [List.dropLast_concat, List.getLast?_concat] at heq
  have hbak : str ".bak" = [] :=
    List.append_right_eq_self.mp (List.singleton_inj.mp (List.append_cancel_left heq))
  exact absurd hbak (by decide)

theorem exists_copy (hdir : t.node (t.copyTarget target (backupOf target)) ≠ some .dir) :
    ∃ t', t.copy2 target (backupOf target) = some t' ∧ ∀ q, t'.node q =
      if q = t.copyTarget target (backupOf target) then some (.file f) else t.node q := by
  obtain ⟨dir, name, rfl, hparent⟩ := exists_concat h
  have htakes : t.Takes (t.copyTarget (dir ++ [name]) (backupOf (dir ++ [name]))) := by
    refine ⟨?_, ?_, hdir⟩
    · unfold FileTree.copyTarget backupOf
      split_ifs <;> simp
    · unfold FileTree.copyTarget
      split_ifs with hbackup
      · rwa [List.dropLast_concat]
      · unfold backupOf
        rwa [List.dropLast_concat, List.dropLast_concat]
  obtain ⟨t', ht'⟩ := FileTree.exists_write f htakes
  exact ⟨t', FileTree.copy2_eq_some.mpr ⟨f, h, ht'⟩, FileTree.node_write ht'⟩

theorem allOrNothing_backup_iff (hbackup : t.node (backupOf target) ≠ some .dir)
    (hsandbox : env.sandboxOnly = false) (before : Str) :
    AllOrNothing env t patch target
        (writeWithRollback env t patch target before patch.afterAstHash) ↔
      t.node (backupOf target) = none := by
  have hne := backupOf_ne h
  have hdest : t.copyTarget target (backupOf target) = backupOf target := if_neg hbackup
  obtain ⟨t₁, hcopy, hnode⟩ := exists_copy h (by rwa [hdest])
  rw [hdest] at hnode
  have htarget : t₁.node target = some (.file f) := (hnode target).trans ((if_neg hne.symm).trans h)
  have hold : t₁.node (backupOf target) = some (.file f) := (hnode _).trans (if_pos rfl)
  have hfile : ∀ q ≠ backupOf target, t₁.file? q = t.file? q := fun q hq => by
    rw [FileTree.file?, FileTree.file?, hnode q, if_neg hq]
  -- Whatever the end is, the backup is not there, and the files beside it and the target are kept.
  have hfinal : ∀ t' : FileTree, t'.node (backupOf target) = none →
      (∀ q, q ≠ backupOf target → q ≠ target → t'.file? q = t.file? q) →
      ((∀ q ≠ target, contents t' q = contents t q) ↔ t.node (backupOf target) = none) := by
    intro t' hgone hrest
    constructor
    · intro hsame
      have heq := hsame _ hne
      rw [contents, contents, FileTree.file?, hgone] at heq
      cases hb : t.node (backupOf target) with
      | none => rfl
      | some n =>
        cases n with
        | dir => exact absurd hb hbackup
        | file g =>
          rw [FileTree.file?_eq_some.mpr hb] at heq
          cases heq
    · intro hnone q hq
      by_cases hqb : q = backupOf target
      · rw [hqb, contents, contents, FileTree.file?, FileTree.file?, hgone, hnone]
      · rw [contents, contents, hrest q hqb hq]
  have hfailure : ∀ (t₂ : FileTree) (g : File) (r : ApplyResult), r.success = false →
      t₂.node target = some (.file g) → t₂.node (backupOf target) = some (.file f) →
      (∀ q ≠ target, t₂.file? q = t₁.file? q) →
      (AllOrNothing env t patch target (rollBack target (some (backupOf target)) r t₂) ↔
        t.node (backupOf target) = none) := by
    intro t₂ g r hr hg hb hrest
    obtain ⟨t₃, ht₃, hnode₃⟩ := rollBack_spec hb hg hne.symm r
    rw [ht₃]
    unfold AllOrNothing
    rw [if_neg fun hand => by rw [Option.any_some, hr] at hand; exact Bool.false_ne_true hand.1]
    refine (and_iff_left ?_).trans (hfinal t₃ ((hnode₃ _).trans (if_pos rfl)) fun q hqb hq => ?_)
    · show contents t₃ target = contents t target
      rw [contents, contents, FileTree.file?, hnode₃, if_neg hne.symm, if_pos rfl, FileTree.file?,
        h]
    · rw [FileTree.file?, hnode₃ q, if_neg hqb, if_neg hq, ← hfile q hqb, ← hrest q hq]
      rfl
  unfold writeWithRollback FileTree.pathExists
  rw [h, Option.isSome_some, if_pos rfl, if_pos rfl, hcopy]
  dsimp only
  obtain ⟨-, t₂, hwrite, hfiles, hstay⟩ | ⟨-, t₂, g, hwrite, hg, hcontent, hfiles, hstay⟩ :=
    writeTarget_cases env (t := t₁) patch.afterSource
      (ne_nil_of_file h) (by rw [htarget]; simp)
  · rw [hwrite]
    exact hfailure t₂ f _ rfl ((hstay _ (by rw [htarget]; simp)).trans htarget)
      ((hstay _ (by rw [hold]; simp)).trans hold) fun q _ => hfiles q
  · have hb := (hstay _ hne (by rw [hold]; simp)).trans hold
    rw [hwrite]
    cases hread : readBack env patch.afterSource with
    | error e => exact hfailure t₂ g _ rfl hg hb hfiles
    | ok written =>
      dsimp only
      by_cases hdiff : written ≠ patch.afterAstHash
      · rw [if_pos hdiff]
        exact hfailure t₂ g _ rfl hg hb hfiles
      · rw [if_neg hdiff]
        obtain ⟨t₃, ht₃, hnode₃⟩ := finish_spec hb _
        rw [ht₃]
        unfold AllOrNothing
        rw [if_pos ⟨rfl, by rw [hsandbox]; exact Bool.false_ne_true⟩, output_of_readBack hread]
        refine (and_iff_left ?_).trans
          (hfinal t₃ ((hnode₃ _).trans (if_pos rfl)) fun q hqb hq => ?_)
        · show contents t₃ target = _
          rw [contents, FileTree.file?, hnode₃, if_neg hne.symm, hg, ← hcontent]
          rfl
        · rw [FileTree.file?, hnode₃ q, if_neg hqb, ← hfile q hqb, ← hfiles q hq]
          rfl

theorem allOrNothing_backupDir_iff (hbackup : t.node (backupOf target) = some .dir)
    (before : Str) :
    AllOrNothing env t patch target
        (writeWithRollback env t patch target before patch.afterAstHash) ↔
      t.node (backupOf target ++ [target.getLast?.getD []]) = some .dir ∨
        contents t (backupOf target ++ [target.getLast?.getD []]) = some f.content ∧
          (Opens env t target → output env patch.afterSource = f.content) := by
  have hdest : t.copyTarget target (backupOf target) =
      backupOf target ++ [target.getLast?.getD []] := if_pos hbackup
  have hlen : target.dropLast.length < (backupOf target ++ [target.getLast?.getD []]).length ∧
      target.length ≠ (backupOf target ++ [target.getLast?.getD []]).length := by
    obtain ⟨dir, name, rfl, -⟩ := exists_concat h
    simp [backupOf]
  unfold writeWithRollback FileTree.pathExists
  rw [h, Option.isSome_some, if_pos rfl, if_pos rfl]
  by_cases hdir : t.node (backupOf target ++ [target.getLast?.getD []]) = some .dir
  · have hcopy : t.copy2 target (backupOf target) = none := by
      rw [FileTree.copy2, FileTree.file?_eq_some.mpr h, Option.bind_some, hdest, FileTree.write,
        dif_neg fun htakes => htakes.2.2 hdir]
    rw [hcopy]
    exact iff_of_true ((allOrNothing_of_files rfl).mpr fun _ => rfl) (.inl hdir)
  obtain ⟨t₁, hcopy, hnode⟩ := exists_copy h (by rwa [hdest])
  rw [hdest] at hnode
  generalize backupOf target ++ [target.getLast?.getD []] = dest at hnode hdir hlen
  have hne : target ≠ dest := fun heq => hlen.2 (congrArg List.length heq)
  have htarget : t₁.node target = some (.file f) := (hnode target).trans ((if_neg hne).trans h)
  have hfile : ∀ q ≠ dest, t₁.file? q = t.file? q := fun q hq => by
    rw [FileTree.file?, FileTree.file?, hnode q, if_neg hq]
  have hopens : Opens env t₁ target ↔ Opens env t target := by
    refine and_congr_right fun _ => and_congr_right fun _ => forall₂_congr fun q hq => ?_
    rw [hfile q fun heq => absurd hq.length_le (by rw [heq]; omega)]
  have hended : ∀ (t₂ : FileTree) (r : Option ApplyResult),
      t₂.node (backupOf target) = some .dir →
      finish (some (backupOf target)) r t₂ = (none, t₂) ∧ ∀ r : ApplyResult,
        rollBack target (some (backupOf target)) r t₂ = (none, t₂) := by
    intro t₂ r hb
    have hno : t₂.file? (backupOf target) = none := by
      rw [FileTree.file?, hb]
    have hfinish : ∀ r : Option ApplyResult,
        finish (some (backupOf target)) r t₂ = (none, t₂) := by
      intro r
      unfold finish ifBackup FileTree.pathExists
      dsimp only
      rw [hb, Option.isSome_some, if_pos rfl, FileTree.unlink_of_not_file hno]
    refine ⟨hfinish r, fun r => ?_⟩
    unfold rollBack ifBackup FileTree.pathExists
    dsimp only
    rw [hb, Option.isSome_some, if_pos rfl, FileTree.copy2, hno]
    exact hfinish none
  have hsame : ∀ t₂ : FileTree, (∀ q ≠ target, t₂.file? q = t₁.file? q) →
      ((∀ q, contents t₂ q = contents t q) ↔
        contents t dest = some f.content ∧ contents t₂ target = some f.content) := by
    intro t₂ hrest
    have hold : contents t target = some f.content := by
      rw [contents, FileTree.file?_eq_some.mpr h, Option.map_some]
    have hnew : contents t₂ dest = some f.content := by
      rw [contents, hrest dest hne.symm, FileTree.file?, hnode, if_pos rfl]
      rfl
    refine ⟨fun hall => ⟨by rw [← hall, hnew], by rw [hall, hold]⟩, fun hand q => ?_⟩
    by_cases hq : q = target
    · rw [hq, hand.2, hold]
    by_cases hqd : q = dest
    · rw [hqd, hand.1, hnew]
    · rw [contents, hrest q hq, hfile q hqd]
      rfl
  have hdirBackup : t₁.node (backupOf target) = some .dir := by
    refine (hnode _).trans ((if_neg ?_).trans hbackup)
    intro heq
    exact hdir (by rw [← heq, hbackup])
  rw [hcopy, or_iff_right hdir, ← hopens]
  dsimp only
  obtain ⟨hclosed, t₂, hwrite, hfiles, hstay⟩ |
    ⟨hopen, t₂, g, hwrite, hg, hcontent, hfiles, hstay⟩ :=
      writeTarget_cases env (t := t₁) patch.afterSource (ne_nil_of_file h) (by rw [htarget]; simp)
  · have hb := (hstay _ (by rw [hdirBackup]; simp)).trans hdirBackup
    rw [hwrite]
    dsimp only
    rw [(hended t₂ none hb).2, allOrNothing_of_files rfl, hsame t₂ fun q _ => hfiles q]
    refine and_congr_right fun _ => iff_of_true ?_ fun hopen => absurd hopen hclosed
    rw [contents, hfiles, FileTree.file?_eq_some.mpr htarget, Option.map_some]
  · have hb := (hstay _ (backupOf_ne h) (by rw [hdirBackup]; simp)).trans hdirBackup
    have hall : AllOrNothing env t patch target (none, t₂) ↔ contents t dest = some f.content ∧
        (Opens env t₁ target → output env patch.afterSource = f.content) := by
      have hnew : contents t₂ target = some (output env patch.afterSource) := by
        rw [contents, FileTree.file?_eq_some.mpr hg, Option.map_some, hcontent]
      rw [allOrNothing_of_files rfl, hsame t₂ hfiles, forall_prop_of_true hopen, hnew,
        Option.some_inj]
    rw [hwrite]
    cases hread : readBack env patch.afterSource with
    | error e =>
      dsimp only
      rw [(hended t₂ none hb).2]
      exact hall
    | ok written =>
      dsimp only
      by_cases hdiff : written ≠ patch.afterAstHash
      · rw [if_pos hdiff, (hended t₂ none hb).2]
        exact hall
      · rw [if_neg hdiff, (hended t₂ _ hb).1]
        exact hall

end OldFile

/-- A patch is all or nothing exactly when the write phase, if it comes to that, loses nothing. -/
theorem apply_allOrNothing_iff (env : Env) (t : FileTree) (patch : ASTDiffPatch) (baseDir : Str) :
    AllOrNothing env t patch (targetOf env patch baseDir) (apply env t patch baseDir) ↔
      ((∃ r, precheck env t patch (targetOf env patch baseDir) = .ok r) →
        Spares env t patch (targetOf env patch baseDir)) := by
  unfold apply
  dsimp only
  generalize targetOf env patch baseDir = target
  obtain ⟨r, hr, hsandbox⟩ | ⟨before, hr, hsandbox⟩ := precheck_cases env t patch target
  · rw [hr]
    refine iff_of_true ⟨fun _ _ => rfl, ?_⟩ fun ⟨_, h⟩ => by cases h
    rw [if_neg]
    exact fun hand => hand.2 (hsandbox hand.1)
  · rw [hr, forall_prop_of_true ⟨_, rfl⟩]
    unfold Spares
    cases h : t.node target with
    | none => exact allOrNothing_new_iff h hsandbox before
    | some n =>
      cases n with
      | dir =>
        refine iff_of_true ?_ trivial
        have hcopy : t.copy2 target (backupOf target) = none := by
          rw [FileTree.copy2, FileTree.file?, h]
          rfl
        unfold writeWithRollback FileTree.pathExists
        rw [h, Option.isSome_some, if_pos rfl, if_pos rfl, hcopy]
        exact (allOrNothing_of_files rfl).mpr fun _ => rfl
      | file f =>
        by_cases hbackup : t.node (backupOf target) = some .dir
        · refine (allOrNothing_backupDir_iff h hbackup before).trans ?_
          simp only [hbackup, reduceCtorEq, false_or, true_and]
        · refine (allOrNothing_backup_iff h hbackup hsandbox before).trans ?_
          dsimp only
          rw [or_iff_left fun hand => hbackup hand.1]

def fullDisk : Env where
  cwd := []
  sandboxOnly := false
  validateLibcst _ := none
  astHash s := .ok s
  fault := some (.write 1)
  errorText := str "No space left on device"

def newFile : ASTDiffPatch := ⟨str "m.py", [], str "x = 1", str "x = 1"⟩

/-- A part of the new file stays. -/
theorem not_allOrNothing_newFile : ¬ ∀ (env : Env) (t : FileTree) (patch : ASTDiffPatch)
    (baseDir : Str),
    AllOrNothing env t patch (targetOf env patch baseDir) (apply env t patch baseDir) := by
  intro h
  have hall := h fullDisk .empty newFile []
  have htarget : targetOf fullDisk newFile [] = [str "m.py"] := by decide
  have hnone : FileTree.empty.node [str "m.py"] = none := rfl
  have hpre : precheck fullDisk .empty newFile [str "m.py"] = .ok ([], newFile.afterAstHash) := rfl
  have hopens : Opens fullDisk .empty [str "m.py"] := by
    refine ⟨by decide, by decide, fun q hq => ?_⟩
    rw [List.prefix_nil.mp hq]
    rfl
  unfold apply at hall
  rw [htarget] at hall
  dsimp only at hall
  rw [hpre] at hall
  exact absurd ((allOrNothing_new_iff hnone rfl []).mp hall hopens).1 (Option.some_ne_none _)

end Adaad.PatchApplicator
