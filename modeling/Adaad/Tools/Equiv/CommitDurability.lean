import Adaad.Run
import Adaad.Tools.Equiv.MutationTx

/-!
# What a commit keeps

`commit` removes the backups, and a rollback that follows it, by a call or because the block is left
with an exception, still removes the files that the transaction has created.  As long as no rollback
finds such a file without a backup, the files stay as their last targets have left them
(`durable_of_harmless`); files that were there before are never lost.
-/

namespace Adaad.MutationTx

open Py MutationFs Run

variable {P : Platform} {cfg : Config P} {s s₁ : Tx P}

/-! ### The rest of the block -/

/-- What may follow a commit: calls in the block, and the end of the block. -/
inductive Event (P : Platform) where
  | call (c : Call P)
  | exit (raised : Bool)

def after (cfg : Config P) (s : Tx P) : Event P → Tx P
  | .call c => step cfg s c
  | .exit raised => exit cfg raised s

/-- Every file that was touched is as it was before the commit. -/
def Durable (s₁ s : Tx P) : Prop :=
  ∀ r ∈ s₁.records, s.tree.file? r.result.path = s₁.tree.file? r.result.path

/-- A call of `apply` raises: no target is applied any more. -/
def Quiet (cfg : Config P) (s : Tx P) : Event P → Prop
  | .call (.apply temp target) => ∃ e, (apply cfg s temp target).1 = .error e
  | _ => True

def RollsBack (s : Tx P) : Event P → Prop
  | .call .rollback => True
  | .exit raised => raised = true ∨ s.committed = false
  | _ => False

/-- A rollback raises before it changes anything, or each file that was applied and counts as created
has a backup that is there, and that does not count as created itself. -/
def Spared (cfg : Config P) (s : Tx P) : Prop :=
  (∃ e, rollbackSnapshotDigest cfg s.tree (touched s) = .error e) ∨
    ∀ r ∈ s.records, r.result.path ∈ s.created → ∃ b, (r.result.path, b) ∈ s.backups ∧
      (s.tree.file? b).isSome = true ∧ b ∉ s.created

def Harmless (cfg : Config P) (s : Tx P) (e : Event P) : Prop :=
  Quiet cfg s e ∧ (RollsBack s e → Spared cfg s)

/-! ### Backups of backups -/

def backupOf (cfg : Config P) (path : List Str) : List Str :=
  cfg.rollbackDir ++ path.drop cfg.agent.root.parts.length

/-- The backup of a file, the backup of that, and so on. -/
inductive CopyOf (cfg : Config P) (path : List Str) : List Str → Prop where
  | backup : CopyOf cfg path (backupOf cfg path)
  | next {q : List Str} : CopyOf cfg path q → CopyOf cfg path (backupOf cfg q)

theorem backupOf_append (cfg : Config P) (rel : List Str) :
    backupOf cfg (cfg.agent.root.parts ++ rel) = cfg.rollbackDir ++ rel := by
  rw [backupOf, List.drop_left]

theorem backupOf_inj {p q : List Str} (hp : cfg.agent.root.parts <+: p)
    (hq : cfg.agent.root.parts <+: q) (h : backupOf cfg p = backupOf cfg q) : p = q := by
  obtain ⟨rel, rfl⟩ := hp
  obtain ⟨rel', rfl⟩ := hq
  rw [backupOf_append, backupOf_append, List.append_cancel_left_eq] at h
  rw [h]

theorem CopyOf.inRollback {path q : List Str} (h : CopyOf cfg path q) : InRollback cfg q := by
  cases h with
  | backup => exact inRollback_append cfg _
  | next _ => exact inRollback_append cfg _

theorem isPrefix_root_of_inRollback (hcanon : Canonical cfg.agent) {q : List Str}
    (h : InRollback cfg q) : cfg.agent.root.parts <+: q := by
  refine List.IsPrefix.trans ?_ h
  rw [← hcanon.2]
  exact List.prefix_append _ _

theorem CopyOf.of_backupOf (hcanon : Canonical cfg.agent) {path q : List Str}
    (hpath : cfg.agent.root.parts <+: path) (hq : cfg.agent.root.parts <+: q)
    (h : CopyOf cfg path (backupOf cfg q)) : q = path ∨ CopyOf cfg path q := by
  generalize hy : backupOf cfg q = y at h
  cases h with
  | backup => exact .inl (backupOf_inj hq hpath hy)
  | next hcopy =>
    rename_i q'
    obtain rfl := backupOf_inj hq (isPrefix_root_of_inRollback hcanon hcopy.inRollback) hy
    exact .inr hcopy

/-! ### What holds after a commit -/

def Keyed (cfg : Config P) (s : Tx P) : Prop :=
  ∀ e ∈ s.backups, cfg.agent.root.parts <+: e.1 ∧ e.2 = backupOf cfg e.1

/-- The files are as they were, and the copies of them as well; what there is a backup of is there,
and what has the place of the backup of a directory is one. -/
structure Kept (cfg : Config P) (s₁ s : Tx P) : Prop where
  records : s.records = s₁.records
  durable : Durable s₁ s
  keyed : Keyed cfg s
  copies : ∀ r ∈ s₁.records, ∀ q f, CopyOf cfg r.result.path q → s.tree.file? q = some f →
    s₁.tree.file? r.result.path = some f
  live : ∀ e ∈ s.backups, (s.tree.file? e.2).isSome = true → (s.tree.file? e.1).isSome = true
  dirs : ∀ rel, s.tree.node (cfg.rollbackDir ++ rel) = some .dir →
    s.tree.node (cfg.agent.root.parts ++ rel) = some .dir

theorem Keyed.inRollback (h : Keyed cfg s) {e : List Str × List Str} (he : e ∈ s.backups) :
    InRollback cfg e.2 := by
  rw [(h e he).2]
  exact inRollback_append cfg _

theorem Recorded.isSome_file? (hs₁ : Recorded cfg s₁) {r : MutationRecord P} (hr : r ∈ s₁.records) :
    (s₁.tree.file? r.result.path).isSome = true := by
  obtain ⟨r', -, hpath, hmatch⟩ := hs₁.last r hr
  unfold checksumMatches at hmatch
  rw [hpath] at hmatch
  cases hf : s₁.tree.file? r.result.path with
  | none =>
    rw [hf] at hmatch
    cases hmatch
  | some f => rfl

theorem Recorded.isPrefix_root (hs₁ : Recorded cfg s₁) {r : MutationRecord P} (hr : r ∈ s₁.records) :
    cfg.agent.root.parts <+: r.result.path := by
  rw [← (hs₁.admits r hr).canonical.2]
  exact (hs₁.admits r hr).isPrefix_dir

theorem Kept.exists_file? (h : Kept cfg s₁ s) (hs₁ : Recorded cfg s₁) {r : MutationRecord P}
    (hr : r ∈ s₁.records) : ∃ f, s.tree.file? r.result.path = some f := by
  rw [h.durable r hr]
  exact Option.isSome_iff_exists.mp (hs₁.isSome_file? hr)

/-! ### The rollback directory is removed -/

theorem node_clearRollbackDir_of_in (cfg : Config P) (t : FileTree) {q : List Str}
    (hq : InRollback cfg q) : (clearRollbackDir cfg t).node q = none := by
  have hne : cfg.rollbackDir ≠ [] := by
    unfold Config.rollbackDir
    simp
  unfold clearRollbackDir
  by_cases hthere : t.pathExists cfg.rollbackDir = true
  · rw [if_pos hthere, FileTree.node_rmtree, if_pos ⟨hne, hq⟩]
  · rw [if_neg hthere]
    rw [FileTree.pathExists, Option.not_isSome_iff_eq_none] at hthere
    by_contra hsome
    by_cases heq : cfg.rollbackDir = q
    · rw [heq] at hthere
      exact hsome hthere
    · rw [FileTree.node_of_prefix hq heq hsome] at hthere
      cases hthere

theorem file?_clearRollbackDir_of_in (cfg : Config P) (t : FileTree) {q : List Str}
    (hq : InRollback cfg q) : (clearRollbackDir cfg t).file? q = none := by
  rw [FileTree.file?, node_clearRollbackDir_of_in cfg t hq]

theorem file?_clearRollbackDir_of_not (cfg : Config P) (t : FileTree) {q : List Str}
    (hq : ¬ InRollback cfg q) : (clearRollbackDir cfg t).file? q = t.file? q := by
  unfold clearRollbackDir
  split_ifs
  · rw [FileTree.file?, FileTree.file?, FileTree.node_rmtree, if_neg fun h => hq h.2]
  · rfl

theorem kept_of_cleared (hs₁ : Recorded cfg s₁) {t : FileTree} (hrecords : s.records = s₁.records)
    (hkeyed : Keyed cfg s)
    (hfiles : ∀ r ∈ s₁.records, t.file? r.result.path = s₁.tree.file? r.result.path) :
    Kept cfg s₁ { s with tree := clearRollbackDir cfg t } where
  records := hrecords
  durable r hr :=
    (file?_clearRollbackDir_of_not cfg t (hs₁.admits r hr).not_inRollback).trans (hfiles r hr)
  keyed := hkeyed
  copies r hr q f hq hf := by
    rw [file?_clearRollbackDir_of_in cfg t hq.inRollback] at hf
    cases hf
  live e he hf := by
    have hnone := file?_clearRollbackDir_of_in cfg t (hkeyed.inRollback he)
    dsimp only at hf
    rw [hnone] at hf
    cases hf
  dirs rel hdir := by
    have hnone := node_clearRollbackDir_of_in cfg t (inRollback_append cfg rel)
    dsimp only at hdir
    rw [hnone] at hdir
    cases hdir

/-! ### A call of `apply` that raises -/

theorem Kept.adds (h : Kept cfg s₁ s) (hs₁ : Recorded cfg s₁) {target : MutationTarget P}
    {path : List Str} {tree : FileTree} (hadmits : Admits cfg.agent target path)
    (hadds : Adds path s.tree tree) : Kept cfg s₁ { s with tree } := by
  have hsame : ∀ {q : List Str}, InRollback cfg q → tree.node q = s.tree.node q := by
    intro q hq
    rcases hadds q with hnode | ⟨-, hbeside⟩
    · exact hnode
    · exact absurd hq (hadmits.not_inRollback_beside hbeside)
  refine ⟨h.records, ?_, h.keyed, ?_, ?_, ?_⟩
  · intro r hr
    obtain ⟨f, hf⟩ := h.exists_file? hs₁ hr
    rw [← h.durable r hr, hf]
    exact hadds.file? hf
  · intro r hr q f hq hf
    refine h.copies r hr q f hq ?_
    rw [← hf, FileTree.file?, FileTree.file?, hsame hq.inRollback]
  · intro e he hf
    have hback : (s.tree.file? e.2).isSome = true := by
      rw [← hf, FileTree.file?, FileTree.file?, hsame (h.keyed.inRollback he)]
    obtain ⟨f, hf⟩ := Option.isSome_iff_exists.mp (h.live e he hback)
    exact Option.isSome_iff_exists.mpr ⟨f, hadds.file? hf⟩
  · intro rel hdir
    have hroot := h.dirs rel ((hsame (inRollback_append cfg rel)).symm.trans hdir)
    rcases hadds (cfg.agent.root.parts ++ rel) with hnode | ⟨hnone, -⟩
    · exact hnode.trans hroot
    · rw [hroot] at hnone
      cases hnone

theorem Kept.mkdirs (h : Kept cfg s₁ s) {rel : List Str} {tree : FileTree}
    (hthere : s.tree.node (cfg.agent.root.parts ++ rel) ≠ none)
    (hdirs : s.tree.mkdirs (cfg.rollbackDir ++ rel).dropLast = some tree) :
    Kept cfg s₁ { s with tree } := by
  have hfile := FileTree.file?_mkdirs hdirs
  refine ⟨h.records, ?_, h.keyed, ?_, ?_, ?_⟩
  · intro r hr
    exact (hfile _).trans (h.durable r hr)
  · intro r hr q f hq hf
    exact h.copies r hr q f hq ((hfile q).symm.trans hf)
  · intro e he hf
    dsimp only at hf ⊢
    rw [hfile] at hf ⊢
    exact h.live e he hf
  · intro rel' hdir
    have hroot : s.tree.node (cfg.agent.root.parts ++ rel') = some .dir := by
      dsimp only at hdir
      rw [FileTree.node_mkdirs hdirs] at hdir
      by_cases hpre : cfg.rollbackDir ++ rel' <+: (cfg.rollbackDir ++ rel).dropLast
      · -- the directory of a backup: its counterpart holds the file
        have hlen := hpre.length_le
        have hrel : rel' <+: rel :=
          (List.prefix_append_right_inj _).mp (hpre.trans (List.dropLast_prefix _))
        have hne : cfg.agent.root.parts ++ rel' ≠ cfg.agent.root.parts ++ rel := by
          intro heq
          rw [List.append_cancel_left heq, List.length_dropLast] at hlen
          have hpos : 0 < (cfg.rollbackDir ++ rel).length := by
            unfold Config.rollbackDir
            simp
          omega
        exact FileTree.node_of_prefix ((List.prefix_append_right_inj _).mpr hrel) hne hthere
      · rw [if_neg hpre] at hdir
        exact h.dirs rel' hdir
    rw [FileTree.node_mkdirs_of_ne_none hdirs (by rw [hroot]; exact Option.some_ne_none _)]
    exact hroot

theorem Kept.copy (h : Kept cfg s₁ s) (hs₁ : Recorded cfg s₁) (hcanon : Canonical cfg.agent)
    {rel : List Str} {tree : FileTree}
    (hcopy : s.tree.copy2 (cfg.agent.root.parts ++ rel) (cfg.rollbackDir ++ rel) = some tree) :
    Kept cfg s₁ { s with
      tree
      backups := s.backups ++ [(cfg.agent.root.parts ++ rel, cfg.rollbackDir ++ rel)] } := by
  obtain ⟨f, hfile, hwrite⟩ := FileTree.copy2_eq_some.mp hcopy
  have htarget : s.tree.copyTarget (cfg.agent.root.parts ++ rel) (cfg.rollbackDir ++ rel) =
      cfg.rollbackDir ++ rel := by
    unfold FileTree.copyTarget
    rw [if_neg]
    intro hdir
    rw [h.dirs rel hdir] at hfile
    cases hfile
  rw [htarget] at hwrite
  have hnode := FileTree.node_write hwrite
  have hold : ∀ {q : List Str}, q ≠ cfg.rollbackDir ++ rel → tree.file? q = s.tree.file? q := by
    intro q hq
    rw [FileTree.file?, FileTree.file?, hnode, if_neg hq]
  have hnew : tree.file? (cfg.rollbackDir ++ rel) = some f := by
    rw [FileTree.file?_eq_some, hnode, if_pos rfl]
  have hkeyed : Keyed cfg { s with
      tree
      backups := s.backups ++ [(cfg.agent.root.parts ++ rel, cfg.rollbackDir ++ rel)] } := by
    intro e he
    rcases List.mem_append.mp he with he | he
    · exact h.keyed e he
    · rw [List.mem_singleton.mp he]
      exact ⟨List.prefix_append _ _, (backupOf_append cfg rel).symm⟩
  have hkept : ∀ {q : List Str}, (s.tree.file? q).isSome = true → (tree.file? q).isSome = true := by
    intro q hq
    by_cases heq : q = cfg.rollbackDir ++ rel
    · rw [heq, hnew]
      rfl
    · rw [hold heq]
      exact hq
  refine ⟨h.records, ?_, hkeyed, ?_, ?_, ?_⟩
  · intro r hr
    refine Eq.trans (hold ?_) (h.durable r hr)
    intro heq
    exact (hs₁.admits r hr).not_inRollback (heq ▸ inRollback_append cfg rel)
  · intro r hr q g hq hg
    by_cases heq : q = cfg.rollbackDir ++ rel
    · dsimp only at hg
      rw [heq, hnew] at hg
      obtain rfl := Option.some.inj hg
      rw [heq, ← backupOf_append] at hq
      have hsome : s.tree.file? (cfg.agent.root.parts ++ rel) = some f :=
        FileTree.file?_eq_some.mpr hfile
      -- what was copied is the file of the record, or a copy of it
      rcases hq.of_backupOf hcanon (hs₁.isPrefix_root hr) (List.prefix_append _ _) with hpath | hcopyOf
      · rw [← h.durable r hr, ← hpath]
        exact hsome
      · exact h.copies r hr _ f hcopyOf hsome
    · exact h.copies r hr q g hq ((hold heq).symm.trans hg)
  · intro e he hf
    have hsome : (s.tree.file? (cfg.agent.root.parts ++ rel)).isSome = true := by
      rw [FileTree.file?_eq_some.mpr hfile]
      rfl
    rcases List.mem_append.mp he with he | he
    · refine hkept ?_
      by_cases heq : e.2 = cfg.rollbackDir ++ rel
      · obtain ⟨hroot, hback⟩ := h.keyed e he
        rw [heq, ← backupOf_append] at hback
        rw [← backupOf_inj (List.prefix_append _ _) hroot hback]
        exact hsome
      · dsimp only at hf
        rw [hold heq] at hf
        exact h.live e he hf
    · rw [List.mem_singleton.mp he]
      exact hkept hsome
  · intro rel' hdir
    dsimp only at hdir ⊢
    have hne : cfg.rollbackDir ++ rel' ≠ cfg.rollbackDir ++ rel := by
      intro heq
      rw [heq, hnode, if_pos rfl] at hdir
      cases hdir
    rw [hnode, if_neg hne] at hdir
    have hroot := h.dirs rel' hdir
    rw [hnode, if_neg, hroot]
    intro heq
    rw [heq] at hroot
    exact (FileTree.takes_of_write hwrite).2.2 hroot

theorem Kept.prepare (h : Kept cfg s₁ s) (hs₁ : Recorded cfg s₁) (path : Str) :
    Kept cfg s₁ (prepare cfg s (cfg.agent.locate path)).2 := by
  obtain ⟨e, rel, tree, hprep, hthere, hrel, hdirs⟩ | ⟨e, hprep⟩ |
    ⟨rel, t₁, tree, hprep, -, hrel, hdirs, hcopy⟩ | ⟨hprep, -⟩ | ⟨hprep, -⟩ :=
    prepare_cases cfg s (cfg.agent.locate path)
  · rw [hprep]
    rw [(PurePath.relativeTo_eq_some.mp hrel).2, FileTree.pathExists, Option.isSome_iff_ne_none]
      at hthere
    exact h.mkdirs hthere hdirs
  · rw [hprep]
    exact h
  · rw [hprep]
    have hcanon := canonical_of_locate hrel
    rw [(PurePath.relativeTo_eq_some.mp hrel).2] at hcopy ⊢
    obtain ⟨f, hfile, -⟩ := FileTree.copy2_eq_some.mp hcopy
    have hthere : s.tree.node (cfg.agent.root.parts ++ rel) ≠ none := by
      rw [← FileTree.file?_eq_some, FileTree.file?_mkdirs hdirs, FileTree.file?_eq_some] at hfile
      rw [hfile]
      exact Option.some_ne_none _
    exact (h.mkdirs hthere hdirs).copy hs₁ hcanon hcopy
  · rw [hprep]
    exact ⟨h.records, h.durable, h.keyed, h.copies, h.live, h.dirs⟩
  · rw [hprep]
    exact h

theorem Kept.apply (h : Kept cfg s₁ s) (hs₁ : Recorded cfg s₁) {temp : Str}
    {target : MutationTarget P} {e : MutationFs.Fault} (herr : (apply cfg s temp target).1 = .error e) :
    Kept cfg s₁ (MutationTx.apply cfg s temp target).2 := by
  have hprepared := h.prepare hs₁ target.path
  unfold MutationTx.apply at herr ⊢
  rcases hprep : MutationTx.prepare cfg s (cfg.agent.locate target.path) with ⟨e' | _, s'⟩
  · rw [hprep] at hprepared
    exact hprepared
  · rw [hprep] at herr hprepared
    dsimp only at herr hprepared ⊢
    rcases htarget : applyTarget cfg.letters cfg.agent s'.tree temp target with ⟨e' | result, tree⟩
    · obtain ⟨_, -, hrefused⟩ | ⟨result, hok, -⟩ :=
        applyTarget_cases cfg.letters cfg.agent s'.tree temp target
      · rw [htarget] at hrefused
        rcases hrefused with hsame | ⟨path, hadmits, hadds⟩
        · dsimp only at hsame ⊢
          rw [hsame]
          exact hprepared
        · exact hprepared.adds hs₁ hadmits hadds
      · rw [htarget] at hok
        cases hok
    · rw [htarget] at herr
      cases herr

/-! ### A rollback -/

theorem node_removeCreated (t : FileTree) (p q : List Str) :
    (removeCreated t p).node q = if q = p ∧ (t.file? p).isSome = true then none else t.node q := by
  unfold removeCreated
  cases hf : t.file? p with
  | none =>
    rw [FileTree.unlink_of_not_file hf, if_neg fun h => Bool.false_ne_true h.2]
    rfl
  | some f =>
    obtain ⟨t', hunlink, hnode⟩ := FileTree.unlink_of_file (FileTree.file?_eq_some.mp hf)
    rw [hunlink, Option.getD_some, hnode]
    simp

theorem file?_removeCreated (t : FileTree) (p q : List Str) :
    (removeCreated t p).file? q = if q = p then none else t.file? q := by
  rw [FileTree.file?, node_removeCreated]
  by_cases hq : q = p
  · rw [if_pos hq, hq]
    cases hf : t.file? p with
    | none =>
      rw [if_neg fun h => Bool.false_ne_true h.2]
      exact hf
    | some f => rw [if_pos ⟨rfl, rfl⟩]
  · rw [if_neg fun h => hq h.1, if_neg hq, FileTree.file?]

def SameDirs (t t' : FileTree) : Prop :=
  ∀ q, t'.node q = some .dir ↔ t.node q = some .dir

theorem sameDirs_removeCreated (t : FileTree) (p : List Str) : SameDirs t (removeCreated t p) := by
  intro q
  rw [node_removeCreated]
  by_cases hq : q = p ∧ (t.file? p).isSome = true
  · rw [if_pos hq, hq.1]
    obtain ⟨f, hf⟩ := Option.isSome_iff_exists.mp hq.2
    rw [FileTree.file?_eq_some.mp hf]
    simp
  · rw [if_neg hq]

theorem removeCreated_foldl (created : List (List Str)) (t : FileTree) :
    SameDirs t (created.foldl removeCreated t) ∧ ∀ q,
      (created.foldl removeCreated t).file? q = if q ∈ created then none else t.file? q := by
  induction created generalizing t with
  | nil => exact ⟨fun q => Iff.rfl, fun q => (if_neg List.not_mem_nil).symm⟩
  | cons p created ih =>
    obtain ⟨hdirs, hfiles⟩ := ih (removeCreated t p)
    refine ⟨fun q => (hdirs q).trans (sameDirs_removeCreated t p q), fun q => ?_⟩
    rw [List.foldl_cons, hfiles, file?_removeCreated]
    by_cases hmem : q ∈ created
    · rw [if_pos hmem, if_pos (List.mem_cons_of_mem p hmem)]
    · rw [if_neg hmem]
      simp only [List.mem_cons, hmem, or_false]

/-- During the second loop: where there are files, there were files before the rollback, and the files
of the records and their copies have what the records left. -/
structure Restoring (cfg : Config P) (s₁ s : Tx P) (t : FileTree) : Prop where
  dirs : SameDirs s.tree t
  files : ∀ q, (t.file? q).isSome = true → (s.tree.file? q).isSome = true
  contents : ∀ r ∈ s₁.records, ∀ q f, q = r.result.path ∨ CopyOf cfg r.result.path q →
    t.file? q = some f → s₁.tree.file? r.result.path = some f

theorem restoring_of_removed (h : Kept cfg s₁ s) :
    Restoring cfg s₁ s (s.created.foldl removeCreated s.tree) := by
  obtain ⟨hdirs, hfiles⟩ := removeCreated_foldl s.created s.tree
  have hold : ∀ {q f}, (s.created.foldl removeCreated s.tree).file? q = some f →
      s.tree.file? q = some f := by
    intro q f hf
    rw [hfiles] at hf
    by_cases hmem : q ∈ s.created
    · rw [if_pos hmem] at hf
      cases hf
    · rwa [if_neg hmem] at hf
  refine ⟨hdirs, ?_, ?_⟩
  · intro q hq
    obtain ⟨f, hf⟩ := Option.isSome_iff_exists.mp hq
    rw [hold hf]
    rfl
  · intro r hr q f hq hf
    rcases hq with rfl | hq
    · rw [← h.durable r hr]
      exact hold hf
    · exact h.copies r hr q f hq (hold hf)

theorem takes_of_isSome_file? {t t' : FileTree} {p : List Str} (hdirs : SameDirs t t')
    (h : (t.file? p).isSome = true) : t'.Takes p := by
  obtain ⟨f, hf⟩ := Option.isSome_iff_exists.mp h
  rw [FileTree.file?_eq_some] at hf
  have hne : p ≠ [] := by
    rintro rfl
    rw [t.node_nil] at hf
    cases hf
  refine ⟨hne, (hdirs _).mpr (t.node_parent p.dropLast (p.getLast hne) ?_), fun hdir => ?_⟩
  · rw [List.dropLast_concat_getLast, hf]
    exact Option.some_ne_none _
  · rw [(hdirs p).mp hdir] at hf
    cases hf

theorem Restoring.node_restoreBackup {t : FileTree} (h : Restoring cfg s₁ s t) (hs : Kept cfg s₁ s)
    {e : List Str × List Str} (he : e ∈ s.backups) (n : Nat) :
    (restoreBackup (t, n) e).1 = t ∧ t.file? e.2 = none ∨
      ∃ f, t.file? e.2 = some f ∧ ∀ q,
        (restoreBackup (t, n) e).1.node q = if q = e.1 then some (.file f) else t.node q := by
  unfold restoreBackup
  dsimp only
  cases hf : t.file? e.2 with
  | none =>
    refine .inl ⟨?_, rfl⟩
    have hcopy : t.copy2 e.2 e.1 = none := by
      rw [FileTree.copy2, hf]
      rfl
    rw [hcopy]
    split_ifs <;> rfl
  | some f =>
    have hfile := FileTree.file?_eq_some.mp hf
    have hlive := hs.live e he (h.files e.2 (by rw [hf]; rfl))
    have htakes := takes_of_isSome_file? h.dirs hlive
    obtain ⟨t', hwrite⟩ := FileTree.exists_write f htakes
    have hcopy : t.copy2 e.2 e.1 = some t' := by
      refine FileTree.copy2_eq_some.mpr ⟨f, hfile, ?_⟩
      unfold FileTree.copyTarget
      rw [if_neg htakes.2.2]
      exact hwrite
    have hthere : t.pathExists e.2 = true := by
      rw [FileTree.pathExists, hfile]
      rfl
    rw [if_pos hthere, hcopy]
    exact .inr ⟨f, rfl, FileTree.node_write hwrite⟩

theorem Restoring.step {t : FileTree} (h : Restoring cfg s₁ s t) (hs : Kept cfg s₁ s)
    {e : List Str × List Str} (he : e ∈ s.backups) (n : Nat) :
    Restoring cfg s₁ s (restoreBackup (t, n) e).1 := by
  obtain ⟨hsame, -⟩ | ⟨f, hf, hnode⟩ := h.node_restoreBackup hs he n
  · rw [hsame]
    exact h
  have hlive := hs.live e he (h.files e.2 (by rw [hf]; rfl))
  have hnew : (restoreBackup (t, n) e).1.file? e.1 = some f := by
    rw [FileTree.file?_eq_some, hnode, if_pos rfl]
  have hold : ∀ {q : List Str}, q ≠ e.1 → (restoreBackup (t, n) e).1.file? q = t.file? q := by
    intro q hq
    rw [FileTree.file?, FileTree.file?, hnode, if_neg hq]
  refine ⟨?_, ?_, ?_⟩
  · intro q
    rw [hnode]
    by_cases hq : q = e.1
    · rw [if_pos hq, hq, ← h.dirs]
      exact iff_of_false (by simp) (takes_of_isSome_file? h.dirs hlive).2.2
    · rw [if_neg hq]
      exact h.dirs q
  · intro q hq
    by_cases heq : q = e.1
    · rw [heq]
      exact hlive
    · rw [hold heq] at hq
      exact h.files q hq
  · intro r hr q g hq hg
    by_cases heq : q = e.1
    · rw [heq, hnew] at hg
      obtain rfl := Option.some.inj hg
      -- what is restored is a copy of the file of the record
      have hcopyOf : CopyOf cfg r.result.path e.2 := by
        rw [(hs.keyed e he).2, ← heq]
        rcases hq with rfl | hq
        · exact .backup
        · exact .next hq
      exact h.contents r hr e.2 f (.inr hcopyOf) hf
    · exact h.contents r hr q g hq ((hold heq).symm.trans hg)

theorem Restoring.isSome_restoreBackup {t : FileTree} (h : Restoring cfg s₁ s t)
    (hs : Kept cfg s₁ s) {e : List Str × List Str} (he : e ∈ s.backups) (n : Nat) {q : List Str}
    (hq : (t.file? q).isSome = true ∨ q = e.1 ∧ (t.file? e.2).isSome = true) :
    ((restoreBackup (t, n) e).1.file? q).isSome = true := by
  obtain ⟨hsame, hnone⟩ | ⟨f, hf, hnode⟩ := h.node_restoreBackup hs he n
  · rw [hsame]
    rcases hq with hq | ⟨-, hq⟩
    · exact hq
    · rw [hnone] at hq
      cases hq
  · by_cases heq : q = e.1
    · rw [FileTree.file?, hnode, if_pos heq]
      rfl
    · rcases hq with hq | ⟨heq', -⟩
      · rw [FileTree.file?, hnode, if_neg heq]
        exact hq
      · exact absurd heq' heq

theorem Restoring.foldl (hs : Kept cfg s₁ s) {backups : List (List Str × List Str)}
    (hsub : ∀ e ∈ backups, e ∈ s.backups) {t : FileTree} (n : Nat) (h : Restoring cfg s₁ s t) :
    Restoring cfg s₁ s (backups.foldl restoreBackup (t, n)).1 ∧
      ∀ q, ((t.file? q).isSome = true ∨ ∃ b, (q, b) ∈ backups ∧ (t.file? b).isSome = true) →
        ((backups.foldl restoreBackup (t, n)).1.file? q).isSome = true := by
  induction backups generalizing t n with
  | nil =>
    refine ⟨h, fun q hq => ?_⟩
    rcases hq with hq | ⟨b, hb, -⟩
    · exact hq
    · exact absurd hb List.not_mem_nil
  | cons e backups ih =>
    have he := hsub e List.mem_cons_self
    have hrest := fun e' he' => hsub e' (List.mem_cons_of_mem e he')
    rw [List.foldl_cons]
    obtain ⟨hkept, hthere⟩ := ih hrest (restoreBackup (t, n) e).2 (h.step hs he n)
    refine ⟨hkept, fun q hq => hthere q ?_⟩
    rcases hq with hq | ⟨b, hb, hback⟩
    · exact .inl (h.isSome_restoreBackup hs he n (.inl hq))
    · rcases List.mem_cons.mp hb with rfl | hb
      · exact .inl (h.isSome_restoreBackup hs he n (.inr ⟨rfl, hback⟩))
      · exact .inr ⟨b, hb, h.isSome_restoreBackup hs he n (.inl hback)⟩

theorem Kept.file?_restored (h : Kept cfg s₁ s) (hs₁ : Recorded cfg s₁)
    (hspared : ∀ r ∈ s.records, r.result.path ∈ s.created → ∃ b, (r.result.path, b) ∈ s.backups ∧
      (s.tree.file? b).isSome = true ∧ b ∉ s.created) :
    ∀ r ∈ s₁.records, (restored s).1.file? r.result.path = s₁.tree.file? r.result.path := by
  intro r hr
  obtain ⟨hrestoring, hthere⟩ :=
    Restoring.foldl h (fun e he => he) 0 (restoring_of_removed h)
  have hfiles := (removeCreated_foldl s.created s.tree).2
  have hsome : ((restored s).1.file? r.result.path).isSome = true := by
    refine hthere r.result.path ?_
    by_cases hmem : r.result.path ∈ s.created
    · obtain ⟨b, hb, hback, hnot⟩ := hspared r (by rw [h.records]; exact hr) hmem
      refine .inr ⟨b, hb, ?_⟩
      rw [hfiles, if_neg hnot]
      exact hback
    · obtain ⟨f, hf⟩ := h.exists_file? hs₁ hr
      rw [hfiles, if_neg hmem, hf]
      exact .inl rfl
  obtain ⟨f, hf⟩ := Option.isSome_iff_exists.mp hsome
  rw [hf, hrestoring.contents r hr _ f (.inl rfl) hf]

theorem Kept.rollback (h : Kept cfg s₁ s) (hs₁ : Recorded cfg s₁) (hspared : Spared cfg s) :
    Kept cfg s₁ (rollback cfg s).2 := by
  unfold MutationTx.rollback
  rcases hspared with ⟨e, herr⟩ | hspared
  · rw [herr]
    exact h
  · cases rollbackSnapshotDigest cfg s.tree (touched s) with
    | error e => exact h
    | ok d =>
      have hcleared := kept_of_cleared hs₁ h.records h.keyed (h.file?_restored hs₁ hspared)
      dsimp only
      cases rollbackSnapshotDigest cfg (clearRollbackDir cfg (restored s).1) (touched s) with
      | error e => exact hcleared
      | ok d' => exact hcleared

/-! ### Runs -/

theorem Kept.after (h : Kept cfg s₁ s) (hs₁ : Recorded cfg s₁) {e : Event P}
    (he : Harmless cfg s e) : Kept cfg s₁ (after cfg s e) := by
  obtain ⟨hquiet, hspared⟩ := he
  cases e with
  | call c =>
    cases c with
    | apply temp target =>
      obtain ⟨e, herr⟩ := hquiet
      exact h.apply hs₁ herr
    | verify => exact h
    | commit => exact kept_of_cleared (s := { s with committed := true }) hs₁ h.records h.keyed h.durable
    | rollback => exact h.rollback hs₁ (hspared trivial)
  | exit raised =>
    show Kept cfg s₁ (exit cfg raised s)
    unfold exit
    by_cases hback : raised = true ∨ s.committed = false
    · rw [if_pos hback]
      exact h.rollback hs₁ (hspared hback)
    · rw [if_neg hback]
      exact h

theorem keyed_prepare (hs : Keyed cfg s) (path : List Str) : Keyed cfg (prepare cfg s path).2 := by
  obtain ⟨e, rel, tree, hprep, -⟩ | ⟨e, hprep⟩ | ⟨rel, t₁, tree, hprep, -, hrel, -⟩ | ⟨hprep, -⟩ |
    ⟨hprep, -⟩ := prepare_cases cfg s path
  · rw [hprep]
    exact hs
  · rw [hprep]
    exact hs
  · rw [hprep, (PurePath.relativeTo_eq_some.mp hrel).2]
    intro e he
    rcases List.mem_append.mp he with he | he
    · exact hs e he
    · rw [List.mem_singleton.mp he]
      exact ⟨List.prefix_append _ _, (backupOf_append cfg rel).symm⟩
  · rw [hprep]
    exact hs
  · rw [hprep]
    exact hs

theorem keyed_of_applyAll {t : FileTree} {s₀ : Tx P} {xs : List (Str × MutationTarget P)}
    (hstart : start cfg t = some s₀) (h : applyAll cfg s₀ xs = .ok s) : Keyed cfg s := by
  refine applyAll_induct (J := Keyed cfg) ?_ ?_ h
  · intro s temp target result s' hs happly
    obtain ⟨s₁, hprep, -, hs'⟩ := apply_eq_ok happly
    have hkeyed := keyed_prepare hs (cfg.agent.locate target.path)
    rw [hprep] at hkeyed
    rw [hs']
    exact hkeyed
  · obtain ⟨tree, -, rfl⟩ := Option.map_eq_some_iff.mp hstart
    exact fun e he => absurd he List.not_mem_nil

/-- After a commit, as long as no rollback finds a file that counts as created and has no backup, and
no further target is applied, every file that was touched is as its last target has left it. -/
theorem durable_of_harmless {t : FileTree} {s₀ : Tx P} {xs : List (Str × MutationTarget P)}
    {events : List (Event P)} (hstart : start cfg t = some s₀) (happly : applyAll cfg s₀ xs = .ok s₁)
    (h : Meets (after cfg) (Harmless cfg) (commit cfg s₁) events) :
    Always (after cfg) (Durable s₁) (commit cfg s₁) events := by
  have hs₁ := recorded_of_applyAll hstart happly
  have hkeyed : Keyed cfg s₁ := keyed_of_applyAll hstart happly
  have hkept : Kept cfg s₁ (commit cfg s₁) :=
    kept_of_cleared (s := { s₁ with committed := true }) hs₁ rfl hkeyed fun r hr => rfl
  exact (always_of_step (fun s e hs he => hs.after hs₁ he) hkept h).imp fun s hs => hs.durable

/-! ### An exception after a commit -/

def applied (t : FileTree) (xs : List (Str × MutationTarget reference)) : Option (Tx reference) :=
  (start exampleConfig t).bind fun s₀ => (applyAll exampleConfig s₀ xs).toOption

theorem exists_of_applied {t : FileTree} {xs : List (Str × MutationTarget reference)}
    {c : Tx reference → Bool} (h : (applied t xs).any c = true) :
    ∃ s₀ s₁, start exampleConfig t = some s₀ ∧ applyAll exampleConfig s₀ xs = .ok s₁ ∧
      c s₁ = true := by
  unfold applied at h
  cases hstart : start exampleConfig t with
  | none =>
    rw [hstart] at h
    cases h
  | some s₀ =>
    rw [hstart, Option.bind_some] at h
    cases happly : applyAll exampleConfig s₀ xs with
    | error e =>
      rw [happly] at h
      cases h
    | ok s₁ =>
      rw [happly] at h
      exact ⟨s₀, s₁, rfl, happly, h⟩

/-- The directory of the agent holds an empty document. -/
def documentTree : FileTree :=
  ((FileTree.empty.mkdirs [str "a"]).bind fun t =>
    t.write [str "a", str "dna.json"] { content := emptyDocument }).getD FileTree.empty

theorem applied_document : (applied documentTree [([], setTarget 1)]).any
    (fun s => s.created.isEmpty) = true := by
  decide +kernel

/-- A document that was there keeps what it was set to. -/
theorem durable_of_harmless_document : ∃ s₀ s₁, start exampleConfig documentTree = some s₀ ∧
    applyAll exampleConfig s₀ [([], setTarget 1)] = .ok s₁ ∧
      Always (after exampleConfig) (Durable s₁) (commit exampleConfig s₁) [.exit true] := by
  obtain ⟨s₀, s₁, hstart, happly, hcreated⟩ := exists_of_applied applied_document
  refine ⟨s₀, s₁, hstart, happly, durable_of_harmless hstart happly ⟨⟨trivial, fun _ => ?_⟩, trivial⟩⟩
  refine .inr fun r hr hmem => ?_
  rw [show (commit exampleConfig s₁).created = [] from List.isEmpty_iff.mp hcreated] at hmem
  exact absurd hmem List.not_mem_nil

/-- A file of a record is lost when the block of a committed transaction is left with an
exception. -/
def loses (s : Tx reference) : Bool :=
  s.records.any fun r => (s.tree.file? r.result.path).isSome &&
    ((exit exampleConfig true (commit exampleConfig s)).tree.file? r.result.path).isNone

theorem applied_new : (applied FileTree.empty [([], setTarget 1)]).any loses = true := by
  decide +kernel

/-- A document is created and the transaction committed; an exception then removes the document. -/
theorem not_durable : ¬ ∀ (cfg : Config reference) (t : FileTree) (s₀ s₁ : Tx reference)
    (xs : List (Str × MutationTarget reference)) (events : List (Event reference)),
      start cfg t = some s₀ → applyAll cfg s₀ xs = .ok s₁ →
        Meets (after cfg) (Quiet cfg) (commit cfg s₁) events →
          Always (after cfg) (Durable s₁) (commit cfg s₁) events := by
  intro h
  obtain ⟨s₀, s₁, hstart, happly, hloses⟩ := exists_of_applied applied_new
  obtain ⟨r, hr, hlost⟩ := List.any_eq_true.mp hloses
  obtain ⟨hthere, hgone⟩ := Bool.and_eq_true_iff.mp hlost
  have hlast := (h _ _ _ _ _ [.exit true] hstart happly ⟨trivial, trivial⟩).last r hr
  rw [← hlast] at hthere
  rw [Option.isNone_iff_eq_none] at hgone
  have hnone : (run (after exampleConfig) (commit exampleConfig s₁) [.exit true]).tree.file?
      r.result.path = none := hgone
  rw [hnone] at hthere
  cases hthere

end Adaad.MutationTx
