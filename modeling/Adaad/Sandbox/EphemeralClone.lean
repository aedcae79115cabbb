import Adaad.Py.FileTree
import Adaad.Py.Value

/-!
# The ephemeral clone

`runtime/sandbox/ephemeral_clone.py`: the files of the clone that are made read-only, and how a patch
is written to the clone, up to the tests.

Nothing is assumed of the files that are there besides.  The process has no privileges: a file that is
read-only is not opened for writing.
-/

namespace Adaad.EphemeralClone

open Py

inductive Fault where
  /-- `SandboxViolation` -/
  | sandboxViolation (message : Str)
  | raised (e : Exc)
  /-- A name with a null character, or one that cannot be encoded. -/
  | badName
  | permissionError
  | osError
  deriving DecidableEq, Repr

/-- `TIER_0_PATHS` -/
def tier0Paths : List Str :=
  [str "runtime/governance/gate.py", str "runtime/evolution/replay_verifier.py",
    str "runtime/evolution/evidence_bundle.py", str "runtime/evolution/evidence/schemas.py",
    str "runtime/sandbox/ephemeral_clone.py", str "CONSTITUTION.md",
    str "ARCHITECTURE_CONTRACT.md", str "config/governance/", str "data/evolution_ledger.jsonl",
    str "data/exception_tokens.jsonl"]

/-- What `tempfile.mkdtemp` gives. -/
structure CloneDir where
  path : PurePath
  absolute : path.absolute = true
  resolved : dotdot ∉ path.parts

def CloneDir.parts (clone : CloneDir) : List Str :=
  clone.path.parts

/-! ### Read-only files -/

/-- The file at the path, or all files below the directory, are read-only. -/
def chmodBelow (t : FileTree) (target : List Str) : FileTree :=
  t.mapFiles fun path f =>
    if target <+: path then { f with writable := false, executable := false } else f

/-- `_enforce_tier0_readonly` -/
def enforceTier0Readonly (clone : CloneDir) (t : FileTree) : FileTree :=
  tier0Paths.foldl (fun t relPath => chmodBelow t (clone.path.join relPath).parts) t

/-! ### The patch -/

/-- `rel.relative_to(tier0_path)` returns, for an entry. -/
def isTier0Target (targetFile : Str) : Bool :=
  tier0Paths.any fun tier0 =>
    (PurePath.parse targetFile).absolute = (PurePath.parse tier0).absolute &&
      (PurePath.parse tier0).parts.isPrefixOf (PurePath.parse targetFile).parts

def violation (targetFile : Str) : Str :=
  str "TIER0-SELF-0 VIOLATION: Mutation attempted to target Tier-0 path '" ++ targetFile ++
    str "'. Mutation rejected before LLM call."

/-- The file system can have a file of the name. -/
def isFileName (name : Str) : Bool :=
  name.all fun c => c ≠ 0 && (c < 0xD800 || 0xDFFF < c || (0xDC80 ≤ c && c ≤ 0xDCFF))

/-- The name of `path.with_suffix(".adaad_tmp")`. -/
def tmpName (name : Str) : Str :=
  name.take (name.length - (PurePath.suffixOf name).length) ++ str ".adaad_tmp"

/-- `path.write_text(text, encoding="utf-8")`; a text that cannot be encoded leaves an empty file. -/
def writeText (t : FileTree) (path : List Str) (text : Str) : Except Fault Unit × FileTree :=
  let f := (t.file? path).getD { content := [] }
  if f.writable = false then (.error .permissionError, t)
  else
    match encode text with
    | none =>
      match t.write path { f with content := [] } with
      | none => (.error .osError, t)
      | some t => (.error (.raised .unicodeEncodeError), t)
    | some b =>
      match t.write path { f with content := b } with
      | none => (.error .osError, t)
      | some t => (.ok (), t)

/-- `_apply_patch` -/
def applyPatch (clone : CloneDir) (t : FileTree) (targetFile afterSource : Str) :
    Except Fault Unit × FileTree :=
  if isTier0Target targetFile then (.error (.sandboxViolation (violation targetFile)), t)
  else
    let cloneTarget := (clone.path.join targetFile).parts
    if ¬ cloneTarget.dropLast.all isFileName then (.error .badName, t)
    else
      match t.mkdirAlong [] cloneTarget.dropLast with
      | (none, t) => (.error .osError, t)
      | (some parent, t) =>
        match cloneTarget.getLast? with
        | none => (.error (.raised (.valueError (str "PosixPath('/') has an empty name"))), t)
        | some name =>
          if ¬ isFileName (tmpName name) then (.error .badName, t)
          else
            match writeText t (parent ++ [tmpName name]) afterSource with
            | (.error e, t) => (.error e, t)
            | (.ok (), t) =>
              if ¬ isFileName name then (.error .badName, t)
              -- a file is not moved to a directory
              else if name = dotdot then (.error .osError, t)
              else
                match t.rename (parent ++ [tmpName name]) (parent ++ [name]) with
                | none => (.error .osError, t)
                | some t => (.ok (), t)

end Adaad.EphemeralClone

/-!
## What a patch may change

A patch to a target without `..` whose path is relative is written inside the clone, and leaves the
files of `TIER_0_PATHS` (`isolated_of_relative`).  The check of the target compares components, and
the path is joined to the clone as it is: an absolute target is written where it points to, and `..`
leads out of the clone or to a file of `TIER_0_PATHS` by another way.  `patch_isolated_iff` says for every
target when the clone keeps the patch.
-/

namespace Adaad.EphemeralClone

open Py FileTree

variable {clone : CloneDir} {t : FileTree} {targetFile afterSource name : Str} {b : Bytes}

/-- The path is an entry of `TIER_0_PATHS` in the clone, or lies under one. -/
def InTier0 (clone : CloneDir) (q : List Str) : Prop :=
  ∃ tier0 ∈ tier0Paths, clone.parts ++ (PurePath.parse tier0).parts <+: q

/-- The patch raises or changes nothing outside the clone, and the files of `TIER_0_PATHS` keep their
content. -/
structure Isolated (clone : CloneDir) (t : FileTree) (r : Except Fault Unit × FileTree) : Prop where
  inside : r.1 = .ok () → ∀ q, ¬ clone.parts <+: q → r.2.node q = t.node q
  tier0 : ∀ q f, InTier0 clone q → t.file? q = some f →
    ∃ f', r.2.file? q = some f' ∧ f'.content = f.content

/-! ### Read-only files -/

def ReadOnlyAt (t : FileTree) (q : List Str) : Prop :=
  ∀ f, t.file? q = some f → f.writable = false

theorem readOnlyAt_chmodBelow {target q : List Str} (h : target <+: q ∨ ReadOnlyAt t q) :
    ReadOnlyAt (chmodBelow t target) q := by
  intro f hf
  rw [chmodBelow, file?_mapFiles, Option.map_eq_some_iff] at hf
  obtain ⟨g, hg, rfl⟩ := hf
  by_cases hpre : target <+: q
  · rw [if_pos hpre]
  · rw [if_neg hpre]
    exact (h.resolve_left hpre) g hg

theorem readOnlyAt_foldl {paths : List Str} {q : List Str}
    (h : (∃ p ∈ paths, (clone.path.join p).parts <+: q) ∨ ReadOnlyAt t q) :
    ReadOnlyAt (paths.foldl (fun t relPath => chmodBelow t (clone.path.join relPath).parts) t) q := by
  induction paths generalizing t with
  | nil =>
    rcases h with ⟨p, hp, -⟩ | h
    · exact absurd hp List.not_mem_nil
    · exact h
  | cons p paths ih =>
    refine ih ?_
    rcases h with ⟨p', hp', hpre⟩ | h
    · rcases List.mem_cons.mp hp' with rfl | hp'
      · exact .inr (readOnlyAt_chmodBelow (.inl hpre))
      · exact .inl ⟨p', hp', hpre⟩
    · exact .inr (readOnlyAt_chmodBelow (.inr h))

theorem parts_join_of_relative {s : Str} (h : (PurePath.parse s).absolute = false) :
    (clone.path.join s).parts = clone.parts ++ (PurePath.parse s).parts := by
  unfold PurePath.join
  rw [if_neg (by rw [h]; exact Bool.false_ne_true)]
  rfl

theorem absolute_of_mem_tier0Paths : ∀ tier0 ∈ tier0Paths, (PurePath.parse tier0).absolute = false := by
  decide

theorem readOnlyAt_enforceTier0Readonly {q : List Str} (h : InTier0 clone q) :
    ReadOnlyAt (enforceTier0Readonly clone t) q := by
  obtain ⟨tier0, hmem, hpre⟩ := h
  refine readOnlyAt_foldl (.inl ⟨tier0, hmem, ?_⟩)
  rw [parts_join_of_relative (absolute_of_mem_tier0Paths tier0 hmem)]
  exact hpre

theorem node_foldl_chmodBelow (paths : List Str) (q : List Str) :
    (paths.foldl (fun t relPath => chmodBelow t (clone.path.join relPath).parts) t).node q =
      some .dir ↔ t.node q = some .dir := by
  induction paths generalizing t with
  | nil => exact Iff.rfl
  | cons p paths ih => exact ih.trans node_mapFiles_eq_dir

theorem node_enforceTier0Readonly {q : List Str} :
    (enforceTier0Readonly clone t).node q = some .dir ↔ t.node q = some .dir :=
  node_foldl_chmodBelow tier0Paths q

/-! ### Where a patch lands -/

def wayOf (clone : CloneDir) (targetFile : Str) : List Str :=
  (clone.path.join targetFile).parts.dropLast

def parentOf (clone : CloneDir) (targetFile : Str) : List Str :=
  (wayOf clone targetFile).foldl PurePath.step []

/-- The place is no directory, also when the way has been made. -/
def Vacant (clone : CloneDir) (t : FileTree) (targetFile : Str) (q : List Str) : Prop :=
  q ∉ places [] (wayOf clone targetFile) ∧ t.node q ≠ some .dir

/-- Nothing keeps the patch from being written under the name. -/
structure Lands (clone : CloneDir) (t : FileTree) (targetFile afterSource name : Str)
    (b : Bytes) : Prop where
  allowed : isTier0Target targetFile = false
  target : (clone.path.join targetFile).parts.getLast? = some name
  wayNames : (wayOf clone targetFile).all isFileName = true
  tmpNamed : isFileName (tmpName name) = true
  named : isFileName name = true ∧ name ≠ dotdot
  free : ∀ p ∈ places [] (wayOf clone targetFile), t.file? p = none
  encoded : encode afterSource = some b
  tmpVacant : Vacant clone t targetFile (parentOf clone targetFile ++ [tmpName name])
  tmpWritable : ∀ f, t.file? (parentOf clone targetFile ++ [tmpName name]) = some f →
    f.writable = true
  vacant : Vacant clone t targetFile (parentOf clone targetFile ++ [name])

/-- The file that is written: one of the name of the temporary file is written anew. -/
def newFile (clone : CloneDir) (t : FileTree) (targetFile name : Str) (b : Bytes) : File :=
  { (t.file? (parentOf clone targetFile ++ [tmpName name])).getD { content := [] } with content := b }

def Landed (clone : CloneDir) (t t' : FileTree) (targetFile name : Str) (b : Bytes) : Prop :=
  ∀ q, t'.node q =
    if q = parentOf clone targetFile ++ [name] then some (.file (newFile clone t targetFile name b))
    else if q = parentOf clone targetFile ++ [tmpName name] then none
    else if (places [] (wayOf clone targetFile)).contains q then some .dir
    else t.node q

def KeepsReadOnly (t t' : FileTree) : Prop :=
  ∀ q f, t.file? q = some f → f.writable = false → t'.file? q = some f

theorem writeText_cases (t : FileTree) (path : List Str) (text : Str) :
    (∃ e t', writeText t path text = (.error e, t') ∧ KeepsReadOnly t t') ∨
    ∃ b t', writeText t path text = (.ok (), t') ∧ encode text = some b ∧ t.Takes path ∧
      (∀ f, t.file? path = some f → f.writable = true) ∧
      ∀ q, t'.node q = if q = path then
        some (.file { (t.file? path).getD { content := [] } with content := b }) else t.node q := by
  unfold writeText
  generalize hold : (t.file? path).getD { content := [] } = g
  dsimp only
  by_cases hw : g.writable = false
  · rw [if_pos hw]
    exact .inl ⟨_, _, rfl, fun q f hf _ => hf⟩
  · rw [if_neg hw]
    have hwritable : ∀ f, t.file? path = some f → f.writable = true := by
      intro f hf
      rw [hf, Option.getD_some] at hold
      rw [hold]
      exact Bool.not_eq_false _ ▸ hw
    cases hb : encode text with
    | none =>
      dsimp only
      cases hwrite : t.write path { g with content := [] } with
      | none => exact .inl ⟨_, _, rfl, fun q f hf _ => hf⟩
      | some t' =>
        refine .inl ⟨_, _, rfl, fun q f hf hro => ?_⟩
        have hne : q ≠ path := by
          rintro rfl
          rw [hwritable f hf] at hro
          cases hro
        rw [file?, node_write hwrite, if_neg hne]
        exact hf
    | some b =>
      dsimp only
      cases hwrite : t.write path { g with content := b } with
      | none => exact .inl ⟨_, _, rfl, fun q f hf _ => hf⟩
      | some t' =>
        exact .inr ⟨b, t', rfl, rfl, takes_of_write hwrite, hwritable, node_write hwrite⟩

theorem writeText_of_takes {path : List Str} {text : Str} (hb : encode text = some b)
    (htakes : t.Takes path) (hw : ∀ f, t.file? path = some f → f.writable = true) :
    ∃ t', writeText t path text = (.ok (), t') ∧ ∀ q, t'.node q = if q = path then
      some (.file { (t.file? path).getD { content := [] } with content := b }) else t.node q := by
  obtain ⟨e, t', heq, -⟩ | ⟨b', t', heq, hb', -, -, hnode⟩ := writeText_cases t path text
  · exfalso
    unfold writeText at heq
    have hwritable : ((t.file? path).getD { content := [] }).writable = true := by
      cases hf : t.file? path with
      | none => rfl
      | some f => exact hw f hf
    generalize (t.file? path).getD { content := [] } = g at heq hwritable
    obtain ⟨t₁, hwrite⟩ := exists_write { g with content := b } htakes
    dsimp only at heq
    rw [if_neg (by rw [hwritable]; simp), hb] at heq
    dsimp only at heq
    rw [hwrite] at heq
    cases heq
  · obtain rfl := Option.some.inj (hb.symm.trans hb')
    exact ⟨t', heq, hnode⟩

theorem mkdirAlong_root {cs : List Str} (h : ∀ p ∈ places [] cs, t.file? p = none) :
    ∃ t', t.mkdirAlong [] cs = (some (cs.foldl PurePath.step []), t') ∧
      ∀ q, t'.node q = if q ∈ places [] cs then some .dir else t.node q :=
  mkdirAlong_of_free t.node_nil h

theorem foldl_mem_places (dir : List Str) (cs : List Str) :
    cs.foldl PurePath.step dir ∈ places dir cs := by
  induction cs generalizing dir with
  | nil => exact List.mem_cons_self
  | cons c cs ih => exact List.mem_cons_of_mem _ (ih _)

theorem parentOf_mem_places (clone : CloneDir) (targetFile : Str) :
    parentOf clone targetFile ∈ places [] (wayOf clone targetFile) :=
  foldl_mem_places _ _

theorem takes_of_vacant {t' : FileTree} {c : Str}
    (hnode : ∀ q, t'.node q = if q ∈ places [] (wayOf clone targetFile) then some .dir else t.node q)
    (hv : Vacant clone t targetFile (parentOf clone targetFile ++ [c])) :
    t'.Takes (parentOf clone targetFile ++ [c]) := by
  refine ⟨by simp, ?_, ?_⟩
  · rw [List.dropLast_concat, hnode, if_pos (parentOf_mem_places _ _)]
  · rw [hnode, if_neg hv.1]
    exact hv.2

theorem vacant_of_node {t' : FileTree} {q : List Str}
    (hnode : ∀ q, t'.node q = if q ∈ places [] (wayOf clone targetFile) then some .dir else t.node q)
    (h : t'.node q ≠ some .dir) : Vacant clone t targetFile q := by
  rw [hnode] at h
  by_cases hq : q ∈ places [] (wayOf clone targetFile)
  · rw [if_pos hq] at h
    exact absurd rfl h
  · rw [if_neg hq] at h
    exact ⟨hq, h⟩

theorem applyPatch_of_lands (h : Lands clone t targetFile afterSource name b) :
    ∃ t', applyPatch clone t targetFile afterSource = (.ok (), t') ∧
      Landed clone t t' targetFile name b := by
  obtain ⟨t₁, hdirs, hnode₁⟩ := mkdirAlong_root h.free
  have hfile₁ : ∀ q, t₁.file? q = t.file? q := fun q => by
    rw [← file?_mkdirAlong (t := t) (p := []) (wayOf clone targetFile) q, hdirs]
  have htmp := takes_of_vacant hnode₁ h.tmpVacant
  obtain ⟨t₂, hwrite, hnode₂⟩ := writeText_of_takes h.encoded htmp
    fun f hf => h.tmpWritable f ((hfile₁ _).symm.trans hf)
  rw [hfile₁] at hnode₂
  have hplace := takes_of_vacant hnode₁ h.vacant
  have htakes : t₂.Takes (parentOf clone targetFile ++ [name]) := by
    refine ⟨hplace.1, ?_, ?_⟩
    · have hne : parentOf clone targetFile ≠ parentOf clone targetFile ++ [tmpName name] := by simp
      rw [List.dropLast_concat, hnode₂, if_neg hne, hnode₁, if_pos (parentOf_mem_places _ _)]
    · rw [hnode₂]
      by_cases heq : parentOf clone targetFile ++ [name] = parentOf clone targetFile ++ [tmpName name]
      · rw [if_pos heq]
        simp
      · rw [if_neg heq]
        exact hplace.2.2
  obtain ⟨t₃, hrename, hnode₃⟩ := rename_of_takes ((hnode₂ _).trans (if_pos rfl)) htakes
  refine ⟨t₃, ?_, ?_⟩
  · unfold applyPatch
    rw [h.allowed, if_neg Bool.false_ne_true]
    dsimp only
    have hway := h.wayNames
    unfold wayOf at hdirs hway
    rw [if_neg (not_not.mpr hway), hdirs]
    dsimp only
    rw [h.target]
    dsimp only
    rw [if_neg (not_not.mpr h.tmpNamed)]
    rw [show (clone.path.join targetFile).parts.dropLast.foldl PurePath.step [] =
      parentOf clone targetFile from rfl, hwrite]
    dsimp only
    rw [if_neg (not_not.mpr h.named.1), if_neg h.named.2, hrename]
  · intro q
    rw [hnode₃, hnode₂, hnode₁]
    by_cases hq : q = parentOf clone targetFile ++ [name]
    · rw [if_pos hq, if_pos hq]
      rfl
    · rw [if_neg hq, if_neg hq]
      by_cases hqt : q = parentOf clone targetFile ++ [tmpName name]
      · rw [if_pos hqt, if_pos hqt]
      · rw [if_neg hqt, if_neg hqt, if_neg hqt]
        simp only [List.contains_iff_mem]

theorem applyPatch_cases (clone : CloneDir) (t : FileTree) (targetFile afterSource : Str) :
    (∃ e t', applyPatch clone t targetFile afterSource = (.error e, t') ∧ KeepsReadOnly t t') ∨
      ∃ name b, Lands clone t targetFile afterSource name b := by
  unfold applyPatch
  by_cases hallowed : isTier0Target targetFile = true
  · rw [if_pos hallowed]
    exact .inl ⟨_, _, rfl, fun q f hf _ => hf⟩
  rw [if_neg hallowed]
  dsimp only
  by_cases hway : ((clone.path.join targetFile).parts.dropLast.all isFileName) = true
  swap
  · rw [if_pos hway]
    exact .inl ⟨_, _, rfl, fun q f hf _ => hf⟩
  rw [if_neg (not_not.mpr hway)]
  have hfile : ∀ q, (t.mkdirAlong [] (clone.path.join targetFile).parts.dropLast).2.file? q =
      t.file? q := file?_mkdirAlong _
  rcases hdirs : t.mkdirAlong [] (clone.path.join targetFile).parts.dropLast with ⟨_ | parent, t₁⟩
  · rw [hdirs] at hfile
    exact .inl ⟨_, _, rfl, fun q f hf _ => (hfile q).trans hf⟩
  have hfree := free_of_mkdirAlong t.node_nil hdirs
  obtain ⟨t₁', hdirs', hnode₁⟩ := mkdirAlong_root hfree
  rw [hdirs] at hfile hdirs'
  obtain ⟨hparent, rfl⟩ := Prod.mk.inj hdirs'
  obtain rfl := Option.some.inj hparent
  dsimp only at hfile ⊢
  have hkeeps : KeepsReadOnly t t₁ := fun q f hf _ => (hfile q).trans hf
  cases hname : (clone.path.join targetFile).parts.getLast? with
  | none => exact .inl ⟨_, _, rfl, hkeeps⟩
  | some name =>
    dsimp only
    by_cases htmp : isFileName (tmpName name) = true
    swap
    · rw [if_pos htmp]
      exact .inl ⟨_, _, rfl, hkeeps⟩
    rw [if_neg (not_not.mpr htmp)]
    rw [show (clone.path.join targetFile).parts.dropLast.foldl PurePath.step [] =
      parentOf clone targetFile from rfl]
    obtain ⟨e, t₂, hwrite, hkept⟩ | ⟨b, t₂, hwrite, hb, htakes, hwritable, hnode₂⟩ :=
      writeText_cases t₁ (parentOf clone targetFile ++ [tmpName name]) afterSource
    · rw [hwrite]
      exact .inl ⟨_, _, rfl, fun q f hf hro => hkept q f (hkeeps q f hf hro) hro⟩
    rw [hwrite]
    dsimp only
    have hkept : KeepsReadOnly t t₂ := by
      intro q f hf hro
      have hne : q ≠ parentOf clone targetFile ++ [tmpName name] := by
        rintro rfl
        rw [hwritable f ((hfile _).trans hf)] at hro
        cases hro
      rw [file?, hnode₂, if_neg hne]
      exact hkeeps q f hf hro
    by_cases hname' : isFileName name = true
    swap
    · rw [if_pos hname']
      exact .inl ⟨_, _, rfl, hkept⟩
    rw [if_neg (not_not.mpr hname')]
    by_cases hdot : name = dotdot
    · rw [if_pos hdot]
      exact .inl ⟨_, _, rfl, hkept⟩
    rw [if_neg hdot]
    by_cases hdir : t₂.node (parentOf clone targetFile ++ [name]) = some .dir
    · rw [rename_of_dir hdir]
      exact .inl ⟨_, _, rfl, hkept⟩
    · refine .inr ⟨name, b, ?_⟩
      have hvacant : t₁.node (parentOf clone targetFile ++ [name]) ≠ some .dir := by
        intro hnode
        rw [hnode₂] at hdir
        by_cases heq : parentOf clone targetFile ++ [name] =
            parentOf clone targetFile ++ [tmpName name]
        · rw [heq] at hnode
          exact htakes.2.2 hnode
        · rw [if_neg heq] at hdir
          exact hdir hnode
      exact {
        allowed := Bool.not_eq_true _ ▸ hallowed
        target := hname
        wayNames := hway
        tmpNamed := htmp
        named := ⟨hname', hdot⟩
        free := hfree
        encoded := hb
        tmpVacant := vacant_of_node hnode₁ htakes.2.2
        tmpWritable := fun f hf => hwritable f ((hfile _).trans hf)
        vacant := vacant_of_node hnode₁ hvacant }

/-! ### The clone keeps a patch -/

/-- What is written under the name stays in the clone and off the files of `TIER_0_PATHS`, or is
there already. -/
structure Confined (clone : CloneDir) (t : FileTree) (targetFile name : Str) (b : Bytes) : Prop where
  way : ∀ p ∈ places [] (wayOf clone targetFile), clone.parts <+: p ∨ t.node p = some .dir
  inside : clone.parts <+: parentOf clone targetFile ∨
    t.node (parentOf clone targetFile ++ [name]) =
        some (.file (newFile clone t targetFile name b)) ∧
      (tmpName name = name ∨ t.node (parentOf clone targetFile ++ [tmpName name]) = none)
  tier0 : InTier0 clone (parentOf clone targetFile ++ [name]) →
    ∀ f, t.file? (parentOf clone targetFile ++ [name]) = some f → f.content = b

theorem not_prefix_of_vacant (hclone : t.node clone.parts = some .dir) {c : Str}
    (hout : ¬ clone.parts <+: parentOf clone targetFile)
    (hv : Vacant clone t targetFile (parentOf clone targetFile ++ [c])) :
    ¬ clone.parts <+: parentOf clone targetFile ++ [c] := by
  intro hpre
  rcases List.prefix_concat_iff.mp hpre with heq | hpre
  · exact hv.2 (heq ▸ hclone)
  · exact hout hpre

theorem confined_of_isolated (hclone : t.node clone.parts = some .dir)
    (hlands : Lands clone t targetFile afterSource name b)
    (h : Isolated clone t (applyPatch clone t targetFile afterSource)) :
    Confined clone t targetFile name b := by
  obtain ⟨t', heq, hlanded⟩ := applyPatch_of_lands hlands
  rw [heq] at h
  have hinside := h.inside rfl
  dsimp only at hinside
  refine ⟨?_, ?_, ?_⟩
  · intro p hp
    by_cases hin : clone.parts <+: p
    · exact .inl hin
    · have hplace : p ≠ parentOf clone targetFile ++ [name] := fun heq => hlands.vacant.1 (heq ▸ hp)
      have htmp : p ≠ parentOf clone targetFile ++ [tmpName name] := fun heq =>
        hlands.tmpVacant.1 (heq ▸ hp)
      rw [← hinside p hin, hlanded, if_neg hplace, if_neg htmp,
        if_pos (List.contains_iff_mem.mpr hp)]
      exact .inr rfl
  · by_cases hin : clone.parts <+: parentOf clone targetFile
    · exact .inl hin
    · refine .inr ⟨?_, ?_⟩
      · rw [← hinside _ (not_prefix_of_vacant hclone hin hlands.vacant), hlanded, if_pos rfl]
      · by_cases hsame : tmpName name = name
        · exact .inl hsame
        · have hne : parentOf clone targetFile ++ [tmpName name] ≠
              parentOf clone targetFile ++ [name] := by simpa using hsame
          rw [← hinside _ (not_prefix_of_vacant hclone hin hlands.tmpVacant), hlanded, if_neg hne,
            if_pos rfl]
          exact .inr rfl
  · intro hin f hf
    obtain ⟨f', hf', hcontent⟩ := h.tier0 _ f hin hf
    rw [file?_eq_some, hlanded, if_pos rfl] at hf'
    obtain rfl := Node.file.inj (Option.some.inj hf')
    exact hcontent.symm

theorem isolated_of_confined (hro : ∀ q, InTier0 clone q → ReadOnlyAt t q)
    (h : ∀ name b, Lands clone t targetFile afterSource name b →
      Confined clone t targetFile name b) :
    Isolated clone t (applyPatch clone t targetFile afterSource) := by
  obtain ⟨e, t', heq, hkeeps⟩ | ⟨name, b, hlands⟩ :=
    applyPatch_cases clone t targetFile afterSource
  · rw [heq]
    refine ⟨?_, ?_⟩
    · intro hok
      cases hok
    intro q f hin hf
    exact ⟨f, hkeeps q f hf (hro q hin f hf), rfl⟩
  obtain ⟨hway, hinside, htier0⟩ := h name b hlands
  obtain ⟨t', heq, hlanded⟩ := applyPatch_of_lands hlands
  rw [heq]
  refine ⟨?_, ?_⟩
  · intro _ q hout
    show t'.node q = t.node q
    rw [hlanded]
    by_cases hq : q = parentOf clone targetFile ++ [name]
    · rw [if_pos hq]
      rcases hinside with hin | ⟨hsame, -⟩
      · exact absurd (hq ▸ hin.trans (List.prefix_append _ _)) hout
      · rw [hq, hsame]
    rw [if_neg hq]
    by_cases hqt : q = parentOf clone targetFile ++ [tmpName name]
    · rw [if_pos hqt]
      rcases hinside with hin | ⟨-, hname | hnone⟩
      · exact absurd (hqt ▸ hin.trans (List.prefix_append _ _)) hout
      · rw [hname] at hqt
        exact absurd hqt hq
      · rw [hqt, hnone]
    rw [if_neg hqt]
    by_cases hqw : q ∈ places [] (wayOf clone targetFile)
    · rw [if_pos (List.contains_iff_mem.mpr hqw)]
      rcases hway q hqw with hin | hdir
      · exact absurd hin hout
      · exact hdir.symm
    · rw [if_neg (List.contains_iff_mem.not.mpr hqw)]
  · intro q f hin hf
    have hnode := hlanded q
    by_cases hq : q = parentOf clone targetFile ++ [name]
    · rw [if_pos hq, ← file?_eq_some] at hnode
      rw [hq] at hin hf
      exact ⟨_, hnode, (htier0 hin f hf).symm⟩
    rw [if_neg hq] at hnode
    have hqt : q ≠ parentOf clone targetFile ++ [tmpName name] := by
      rintro rfl
      have hwritable := hlands.tmpWritable f hf
      rw [hro _ hin f hf] at hwritable
      cases hwritable
    have hqw : q ∉ places [] (wayOf clone targetFile) := by
      intro hqw
      rw [hlands.free q hqw] at hf
      cases hf
    rw [if_neg hqt, if_neg (List.contains_iff_mem.not.mpr hqw)] at hnode
    refine ⟨f, ?_, rfl⟩
    rw [file?_eq_some] at hf ⊢
    exact hnode.trans hf

/-- A patch to any target is kept by the clone exactly when it does not land, or lands in the clone
and not on a file of `TIER_0_PATHS`; what is there already may be written again. -/
theorem patch_isolated_iff (clone : CloneDir) (t : FileTree) (hclone : t.node clone.parts = some .dir)
    (targetFile afterSource : Str) :
    Isolated clone (enforceTier0Readonly clone t)
        (applyPatch clone (enforceTier0Readonly clone t) targetFile afterSource) ↔
      ∀ name b, Lands clone (enforceTier0Readonly clone t) targetFile afterSource name b →
        Confined clone (enforceTier0Readonly clone t) targetFile name b := by
  constructor
  · intro h name b hlands
    exact confined_of_isolated (node_enforceTier0Readonly.mpr hclone) hlands h
  · exact isolated_of_confined fun q hin => readOnlyAt_enforceTier0Readonly hin

/-! ### Relative targets -/

theorem isTier0Target_of_inTier0 {rel : List Str} (habs : (PurePath.parse targetFile).absolute = false)
    (hparts : (PurePath.parse targetFile).parts = rel) (h : InTier0 clone (clone.parts ++ rel)) :
    isTier0Target targetFile = true := by
  obtain ⟨tier0, hmem, hpre⟩ := h
  refine List.any_eq_true.mpr ⟨tier0, hmem, ?_⟩
  rw [Bool.and_eq_true]
  refine ⟨?_, ?_⟩
  · rw [habs, absolute_of_mem_tier0Paths tier0 hmem]
    rfl
  · rw [hparts, List.isPrefixOf_iff_prefix]
    exact (List.prefix_append_right_inj _).mp hpre

theorem prefix_of_mem_places {cs dir p : List Str} (h : dotdot ∉ cs) (hp : p ∈ places dir cs) :
    ∃ cs', cs' <+: cs ∧ p = dir ++ cs' := by
  induction cs generalizing dir with
  | nil => exact ⟨[], List.nil_prefix, by rw [List.mem_singleton.mp hp, List.append_nil]⟩
  | cons c cs ih =>
    rw [List.mem_cons, not_or] at h
    rcases List.mem_cons.mp hp with rfl | hp
    · exact ⟨[], List.nil_prefix, (List.append_nil p).symm⟩
    · rw [PurePath.step, if_neg (Ne.symm h.1)] at hp
      obtain ⟨cs', hpre, rfl⟩ := ih h.2 hp
      exact ⟨c :: cs', (List.prefix_cons_inj c).mpr hpre, by
        rw [List.append_assoc, List.singleton_append]⟩

theorem confined_of_relative (hclone : t.node clone.parts = some .dir)
    (habs : (PurePath.parse targetFile).absolute = false)
    (hdot : dotdot ∉ (PurePath.parse targetFile).parts)
    (hlands : Lands clone t targetFile afterSource name b) :
    Confined clone t targetFile name b := by
  have hparts : (clone.path.join targetFile).parts =
      clone.parts ++ (PurePath.parse targetFile).parts := parts_join_of_relative habs
  have hnot : dotdot ∉ clone.parts ++ (PurePath.parse targetFile).parts := by
    rw [List.mem_append, not_or]
    exact ⟨clone.resolved, hdot⟩
  have hway : dotdot ∉ wayOf clone targetFile := by
    rw [wayOf, hparts]
    exact fun hmem => hnot (List.dropLast_subset _ hmem)
  have hparent : parentOf clone targetFile = wayOf clone targetFile := by
    rw [parentOf, PurePath.foldl_step_of_notMem hway, List.nil_append]
  have hplace : parentOf clone targetFile ++ [name] =
      clone.parts ++ (PurePath.parse targetFile).parts := by
    rw [hparent, ← hparts]
    exact List.dropLast_append_getLast? name hlands.target
  have hpre : clone.parts <+: parentOf clone targetFile := by
    rcases List.prefix_concat_iff.mp (hplace ▸ List.prefix_append clone.parts
      (PurePath.parse targetFile).parts) with heq | hpre
    · exact absurd (heq ▸ hclone) hlands.vacant.2
    · exact hpre
  refine ⟨?_, .inl hpre, ?_⟩
  · intro p hp
    obtain ⟨cs, hcs, rfl⟩ := prefix_of_mem_places hway hp
    rw [← hparent] at hcs
    rcases List.prefix_or_prefix_of_prefix hpre hcs with hin | hin
    · exact .inl hin
    · refine .inr ?_
      by_cases heq : p = clone.parts
      · rw [heq, hclone]
      · exact node_of_prefix hin heq (by rw [hclone]; exact Option.some_ne_none _)
  · intro hin f hf
    rw [hplace] at hin
    have hrefused := isTier0Target_of_inTier0 habs rfl hin
    rw [hlands.allowed] at hrefused
    cases hrefused

/-- A patch to a relative target without `..` is kept by the clone. -/
theorem isolated_of_relative (hclone : t.node clone.parts = some .dir)
    (habs : (PurePath.parse targetFile).absolute = false)
    (hdot : dotdot ∉ (PurePath.parse targetFile).parts) :
    Isolated clone (enforceTier0Readonly clone t)
      (applyPatch clone (enforceTier0Readonly clone t) targetFile afterSource) :=
  isolated_of_confined (fun _ hin => readOnlyAt_enforceTier0Readonly hin) fun _ _ hlands =>
    confined_of_relative (node_enforceTier0Readonly.mpr hclone) habs hdot hlands

/-! ### An absolute target -/

/-- The clone `/tmp/c`. -/
def exampleClone : CloneDir where
  path := PurePath.parse (str "/tmp/c")
  absolute := by decide
  resolved := by decide

/-- The clone is there, and a file `/r/a.py`. -/
def exampleTree : FileTree :=
  (((FileTree.empty.mkdirs [str "tmp", str "c"]).bind fun t => t.mkdirs [str "r"]).bind fun t =>
    t.write [str "r", str "a.py"] { content := [] }).getD FileTree.empty

theorem node_exampleTree : exampleTree.node exampleClone.parts = some .dir := by
  decide +kernel

theorem isolated_of_relative_file :
    Isolated exampleClone (enforceTier0Readonly exampleClone exampleTree)
      (applyPatch exampleClone (enforceTier0Readonly exampleClone exampleTree) (str "app/a.py")
        (str "x")) :=
  isolated_of_relative node_exampleTree (by decide +kernel) (by decide +kernel)

theorem patch_isolated_iff_absolute :
    Isolated exampleClone (enforceTier0Readonly exampleClone exampleTree)
        (applyPatch exampleClone (enforceTier0Readonly exampleClone exampleTree) (str "/r/a.py")
          (str "x")) ↔
      ∀ name b, Lands exampleClone (enforceTier0Readonly exampleClone exampleTree) (str "/r/a.py")
          (str "x") name b →
        Confined exampleClone (enforceTier0Readonly exampleClone exampleTree) (str "/r/a.py") name b :=
  patch_isolated_iff exampleClone exampleTree node_exampleTree (str "/r/a.py") (str "x")

theorem applyPatch_absolute :
    (applyPatch exampleClone (enforceTier0Readonly exampleClone exampleTree) (str "/r/a.py")
        (str "x")).1 = .ok () ∧
      (applyPatch exampleClone (enforceTier0Readonly exampleClone exampleTree) (str "/r/a.py")
        (str "x")).2.node [str "r", str "a.py"] ≠
          (enforceTier0Readonly exampleClone exampleTree).node [str "r", str "a.py"] := by
  decide +kernel

theorem not_patch_isolated : ¬ ∀ (clone : CloneDir) (t : FileTree), t.node clone.parts = some .dir →
    ∀ targetFile afterSource : Str, Isolated clone (enforceTier0Readonly clone t)
      (applyPatch clone (enforceTier0Readonly clone t) targetFile afterSource) := by
  intro h
  obtain ⟨hok, hne⟩ := applyPatch_absolute
  have hout : ¬ exampleClone.parts <+: [str "r", str "a.py"] := by decide
  exact hne ((h exampleClone exampleTree node_exampleTree (str "/r/a.py") (str "x")).inside hok _ hout)

end Adaad.EphemeralClone
