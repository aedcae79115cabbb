import Adaad.Tools.Equiv.CommitDurability

/-!
# What a rollback undoes

A block that is left without a commit removes the files that it has created and then restores its
backups.  So a file that it creates, and applies to once more, comes back: the second call makes a
backup of it.  Where no call does so, all files are as they were before (`undone_of_undoable`).
-/

namespace Adaad.MutationTx

open Py MutationFs Run

variable {P : Platform} {cfg : Config P} {s : Tx P} {t : FileTree} {path : List Str}

/-- A call of `apply`; what it raises may be caught. -/
def applyStep (cfg : Config P) (s : Tx P) (x : Str × MutationTarget P) : Tx P :=
  (apply cfg s x.1 x.2).2

/-- The files are what they were, but for those below the rollback directory. -/
def Undone (cfg : Config P) (t t' : FileTree) : Prop :=
  ∀ q, ¬ InRollback cfg q → t'.file? q = t.file? q

/-- What is written to the target can be encoded. -/
def encodes (u : Letters P) (a : Agent) (t : FileTree) (target : MutationTarget P) : Bool :=
  match validateTarget a t target with
  | .error _ => true
  | .ok path =>
    match mutated u t path target with
    | .error _ => true
    | .ok m => (encode m.1).isSome

/-- The call can be undone. -/
structure Undoable (cfg : Config P) (s : Tx P) (x : Str × MutationTarget P) : Prop where
  /-- It names nothing below the rollback directory. -/
  outside : ¬ InRollback cfg (cfg.agent.locate x.2.path)
  /-- It names no file that the transaction has created. -/
  once : cfg.agent.locate x.2.path ∈ s.created →
    s.tree.pathExists (cfg.agent.locate x.2.path) = false
  /-- No directory is in the place of the backup. -/
  place : s.tree.node (backupOf cfg (cfg.agent.locate x.2.path)) ≠ some .dir
  /-- What is written can be encoded, or else the temporary file stays. -/
  encodes : encodes cfg.letters cfg.agent
    (prepare cfg s (cfg.agent.locate x.2.path)).2.tree x.2 = true

/-! ### A call -/

theorem file?_replaceFile_of_error (path : List Str) (temp : Str) {serialized : Str}
    {e : MutationFs.Fault} (hb : (encode serialized).isSome = true)
    (h : (replaceFile t path temp serialized).1 = .error e) (q : List Str) :
    (replaceFile t path temp serialized).2.file? q = t.file? q := by
  obtain ⟨b, hb⟩ := Option.isSome_iff_exists.mp hb
  unfold replaceFile at h ⊢
  cases hdirs : t.mkdirs path.dropLast with
  | none => rfl
  | some t₁ =>
    rw [hdirs] at h
    dsimp only at h ⊢
    rw [hb] at h ⊢
    dsimp only at h ⊢
    cases hwrite : t₁.write path { content := b } with
    | none => exact FileTree.file?_mkdirs hdirs q
    | some t₂ =>
      rw [hwrite] at h
      cases h

theorem file?_applyTarget {u : Letters P} {a : Agent} (temp : Str) {target : MutationTarget P}
    (hencodes : encodes u a t target = true) :
    (∀ q, q ≠ a.locate target.path → (applyTarget u a t temp target).2.file? q = t.file? q) ∧
      ((t.file? (a.locate target.path)).isSome = true →
        ((applyTarget u a t temp target).2.file? (a.locate target.path)).isSome = true) := by
  obtain ⟨e, he, -⟩ | ⟨result, -, happlied⟩ := applyTarget_cases u a t temp target
  · have hsame : ∀ q, (applyTarget u a t temp target).2.file? q = t.file? q := by
      intro q
      unfold applyTarget at he ⊢
      unfold encodes at hencodes
      cases hvalid : validateTarget a t target with
      | error e => rfl
      | ok path =>
        rw [hvalid] at he hencodes
        dsimp only at he hencodes ⊢
        cases hmut : mutated u t path target with
        | error e => rfl
        | ok m =>
          rw [hmut] at he hencodes
          have hrest := fun e => file?_replaceFile_of_error (t := t) (e := e) path temp hencodes
          dsimp only at he hrest ⊢
          rcases hrep : replaceFile t path temp m.1 with ⟨e' | b, t'⟩
          · rw [hrep] at hrest
            exact hrest e' rfl q
          · rw [hrep] at he
            cases he
    exact ⟨fun q _ => hsame q, fun h => by rwa [hsame]⟩
  · obtain ⟨b, -, hwrites⟩ := happlied.wrote
    rw [← happlied.admits.located]
    exact ⟨hwrites.others, fun _ => by rw [hwrites.file]; rfl⟩

/-- What a transaction knows of the files before it. -/
structure Tracked (cfg : Config P) (t : FileTree) (s : Tx P) : Prop where
  uncommitted : s.committed = false
  others : ∀ q, ¬ InRollback cfg q → q ∉ s.created → q ∉ s.backups.map Prod.fst →
    s.tree.file? q = t.file? q
  created : ∀ q ∈ s.created, t.file? q = none ∧ q ∉ s.backups.map Prod.fst
  backups : ∀ e ∈ s.backups, ¬ InRollback cfg e.1 ∧ (s.tree.file? e.1).isSome = true ∧
    ∃ f, t.file? e.1 = some f ∧ s.tree.file? e.2 = some f
  outside : ∀ q ∈ s.created, ¬ InRollback cfg q
  keyed : Keyed cfg s

theorem Tracked.write (h : Tracked cfg t s) {tree : FileTree} (hout : ¬ InRollback cfg path)
    (hpath : path ∈ s.created ∨ path ∈ s.backups.map Prod.fst)
    (hothers : ∀ q, q ≠ path → tree.file? q = s.tree.file? q)
    (hstay : (s.tree.file? path).isSome = true → (tree.file? path).isSome = true)
    (records : List (MutationRecord P)) : Tracked cfg t { s with tree, records } where
  uncommitted := h.uncommitted
  others q hq hcreated hbackups := by
    refine (hothers q ?_).trans (h.others q hq hcreated hbackups)
    rintro rfl
    exact hpath.elim hcreated hbackups
  created := h.created
  backups e he := by
    obtain ⟨houte, hsome, f, hf, hback⟩ := h.backups e he
    refine ⟨houte, ?_, f, hf, ?_⟩
    · by_cases heq : e.1 = path
      · rw [heq] at hsome ⊢
        exact hstay hsome
      · dsimp only
        rw [hothers e.1 heq]
        exact hsome
    · -- The backup is below the rollback directory, and the path is not.
      refine (hothers e.2 ?_).trans hback
      rintro rfl
      exact hout (h.keyed.inRollback he)
  outside := h.outside
  keyed := h.keyed

theorem Tracked.copy (h : Tracked cfg t s) {rel : List Str} {t₁ tree : FileTree}
    (hout : ¬ InRollback cfg path) (honce : path ∈ s.created → s.tree.pathExists path = false)
    (hplace : s.tree.node (backupOf cfg path) ≠ some .dir) (hnew : path ∉ s.backups.map Prod.fst)
    (hrel : PurePath.relativeTo path cfg.agent.root = some rel)
    (hdirs : s.tree.mkdirs (cfg.rollbackDir ++ rel).dropLast = some t₁)
    (hcopy : t₁.copy2 path (cfg.rollbackDir ++ rel) = some tree)
    (hkeyed : Keyed cfg { s with
      tree, backups := s.backups ++ [(path, cfg.rollbackDir ++ rel)] }) :
    Tracked cfg t { s with tree, backups := s.backups ++ [(path, cfg.rollbackDir ++ rel)] } := by
  obtain ⟨f, hfile, hwrite⟩ := FileTree.copy2_eq_some.mp hcopy
  have hbackup : backupOf cfg path = cfg.rollbackDir ++ rel := by
    rw [(PurePath.relativeTo_eq_some.mp hrel).2, backupOf_append]
  -- A copy to a directory would go below it.
  have htarget : t₁.copyTarget path (cfg.rollbackDir ++ rel) = cfg.rollbackDir ++ rel := by
    unfold FileTree.copyTarget
    rw [if_neg]
    rw [FileTree.node_mkdirs hdirs, if_neg]
    · rwa [hbackup] at hplace
    · intro hpre
      have hlen := hpre.length_le
      rw [List.length_dropLast] at hlen
      have hpos : 0 < (cfg.rollbackDir ++ rel).length := by
        unfold Config.rollbackDir
        simp
      omega
  rw [htarget] at hwrite
  have hf : s.tree.file? path = some f := by
    rw [← FileTree.file?_mkdirs hdirs, FileTree.file?_eq_some, hfile]
  have hnode : ∀ q, tree.file? q = if q = cfg.rollbackDir ++ rel then some f
      else s.tree.file? q := by
    intro q
    rw [← FileTree.file?_mkdirs hdirs q, FileTree.file?, FileTree.file?,
      FileTree.node_write hwrite]
    split_ifs <;> rfl
  have hold : ∀ {q}, ¬ InRollback cfg q → tree.file? q = s.tree.file? q := by
    intro q hq
    rw [hnode, if_neg]
    rintro rfl
    exact hq (inRollback_append cfg rel)
  have hnot : path ∉ s.created := by
    intro hmem
    have hnone := honce hmem
    rw [FileTree.pathExists, FileTree.file?_eq_some.mp hf] at hnone
    cases hnone
  refine ⟨h.uncommitted, ?_, ?_, ?_, h.outside, hkeyed⟩
  · intro q hq hcreated hbackups
    rw [List.map_append, List.mem_append, not_or] at hbackups
    exact (hold hq).trans (h.others q hq hcreated hbackups.1)
  · intro q hq
    refine ⟨(h.created q hq).1, ?_⟩
    rw [List.map_append, List.mem_append, not_or]
    refine ⟨(h.created q hq).2, ?_⟩
    rintro hmem
    rw [List.mem_singleton.mp hmem] at hq
    exact hnot hq
  · intro e he
    rcases List.mem_append.mp he with hmem | hmem
    · obtain ⟨houte, hsome, g, hg, hback⟩ := h.backups e hmem
      refine ⟨houte, by rwa [← hold houte] at hsome, g, hg, ?_⟩
      dsimp only
      rw [hnode, if_neg, hback]
      intro heq
      -- Two files have two backups.
      obtain ⟨hroot, hplace'⟩ := h.keyed e hmem
      rw [hplace', ← hbackup] at heq
      have hsame := backupOf_inj hroot ((PurePath.relativeTo_eq_some.mp hrel).2 ▸
        List.prefix_append _ _) heq
      exact hnew (hsame ▸ List.mem_map_of_mem hmem)
    · rw [List.mem_singleton.mp hmem]
      refine ⟨hout, ?_, f, ?_, ?_⟩
      · dsimp only
        rw [hold hout, hf]
        rfl
      · rw [← h.others path hout hnot hnew, hf]
      · dsimp only
        rw [hnode, if_pos rfl]

theorem Tracked.prepare (h : Tracked cfg t s) (hout : ¬ InRollback cfg path)
    (honce : path ∈ s.created → s.tree.pathExists path = false)
    (hplace : s.tree.node (backupOf cfg path) ≠ some .dir) :
    Tracked cfg t (prepare cfg s path).2 ∧ ((MutationTx.prepare cfg s path).1 = .ok () →
      path ∈ (MutationTx.prepare cfg s path).2.created ∨
        path ∈ (MutationTx.prepare cfg s path).2.backups.map Prod.fst) := by
  have hkeyed := keyed_prepare h.keyed path
  obtain ⟨e, rel, tree, hprep, -, -, hdirs⟩ | ⟨e, hprep⟩ |
    ⟨rel, t₁, tree, hprep, hnew, hrel, hdirs, hcopy⟩ | ⟨hprep, hnone⟩ | ⟨hprep, hmem⟩ :=
    prepare_cases cfg s path
  · rw [hprep]
    have hfile := FileTree.file?_mkdirs hdirs
    refine ⟨⟨h.uncommitted, ?_, h.created, ?_, h.outside, h.keyed⟩, fun herr => by cases herr⟩
    · exact fun q hq hc hb => (hfile q).trans (h.others q hq hc hb)
    · intro e he
      dsimp only
      rw [hfile, hfile]
      exact h.backups e he
  · rw [hprep]
    exact ⟨h, fun herr => by cases herr⟩
  · rw [hprep] at hkeyed ⊢
    refine ⟨h.copy hout honce hplace hnew hrel hdirs hcopy hkeyed, fun _ => .inr ?_⟩
    rw [List.map_append]
    exact List.mem_append_right _ (List.mem_singleton_self path)
  · rw [hprep]
    have hfile : s.tree.file? path = none := by
      rw [FileTree.file?, hnone]
    have hnew : path ∉ s.backups.map Prod.fst := by
      intro hmem
      obtain ⟨e, he, rfl⟩ := List.mem_map.mp hmem
      have hsome := (h.backups e he).2.1
      rw [hfile] at hsome
      cases hsome
    refine ⟨⟨h.uncommitted, ?_, ?_, h.backups, ?_, h.keyed⟩,
      fun _ => .inl (List.mem_append_right _ (List.mem_singleton_self path))⟩
    · intro q hq hcreated hbackups
      exact h.others q hq (fun hmem => hcreated (List.mem_append_left _ hmem)) hbackups
    · intro q hq
      rcases List.mem_append.mp hq with hq | hq
      · exact h.created q hq
      · rw [List.mem_singleton.mp hq]
        refine ⟨?_, hnew⟩
        -- It may have been created before, and be gone since.
        by_cases hmem : path ∈ s.created
        · exact (h.created path hmem).1
        · rw [← h.others path hout hmem hnew, hfile]
    · intro q hq
      rcases List.mem_append.mp hq with hq | hq
      · exact h.outside q hq
      · rwa [List.mem_singleton.mp hq]
  · rw [hprep]
    exact ⟨h, fun _ => .inr hmem⟩

theorem Tracked.step (h : Tracked cfg t s) {x : Str × MutationTarget P} (hx : Undoable cfg s x) :
    Tracked cfg t (applyStep cfg s x) := by
  obtain ⟨hprepared, htouched⟩ := h.prepare hx.outside hx.once hx.place
  have hencodes := hx.encodes
  unfold applyStep apply
  rcases hprep : MutationTx.prepare cfg s (cfg.agent.locate x.2.path) with ⟨e | _, s₁⟩
  · rw [hprep] at hprepared
    exact hprepared
  · rw [hprep] at hprepared htouched hencodes
    obtain ⟨hothers, hstay⟩ := file?_applyTarget x.1 hencodes
    dsimp only at hprepared htouched hothers hstay ⊢
    rcases happly : applyTarget cfg.letters cfg.agent s₁.tree x.1 x.2 with ⟨e | result, tree⟩
    · rw [happly] at hothers hstay
      exact hprepared.write hx.outside (htouched rfl) hothers hstay s₁.records
    · rw [happly] at hothers hstay
      exact hprepared.write hx.outside (htouched rfl) hothers hstay _

/-! ### The rollback -/

theorem Tracked.restore (h : Tracked cfg t s) {backups : List (List Str × List Str)}
    (hsub : ∀ e ∈ backups, e ∈ s.backups) {t₁ : FileTree} (n : Nat) (hdirs : SameDirs s.tree t₁)
    (hback : ∀ e ∈ s.backups, t₁.file? e.2 = s.tree.file? e.2) (q : List Str) :
    (backups.foldl restoreBackup (t₁, n)).1.file? q =
      if q ∈ backups.map Prod.fst then t.file? q else t₁.file? q := by
  induction backups generalizing t₁ n with
  | nil => rw [List.map_nil, if_neg List.not_mem_nil]; rfl
  | cons e backups ih =>
    obtain ⟨hout, hsome, f, hf, hfile⟩ := h.backups e (hsub e List.mem_cons_self)
    rw [← hback e (hsub e List.mem_cons_self)] at hfile
    -- The directories are those of a tree that has the file.
    have htakes := takes_of_isSome_file? hdirs hsome
    obtain ⟨t₂, hwrite⟩ := FileTree.exists_write f htakes
    have hstep : restoreBackup (t₁, n) e = (t₂, n + 1) := by
      have hcopy : t₁.copy2 e.2 e.1 = some t₂ := by
        refine FileTree.copy2_eq_some.mpr ⟨f, FileTree.file?_eq_some.mp hfile, ?_⟩
        unfold FileTree.copyTarget
        rw [if_neg htakes.2.2]
        exact hwrite
      unfold restoreBackup FileTree.pathExists
      dsimp only
      rw [FileTree.file?_eq_some.mp hfile, Option.isSome_some, if_pos rfl, hcopy]
    have hnode : ∀ q, t₂.file? q = if q = e.1 then some f else t₁.file? q := by
      intro q
      rw [FileTree.file?, FileTree.node_write hwrite]
      split_ifs <;> rfl
    have hdirs₂ : SameDirs s.tree t₂ := by
      intro q
      rw [FileTree.node_write hwrite]
      by_cases hq : q = e.1
      · rw [if_pos hq, hq, ← hdirs]
        exact iff_of_false (by simp) htakes.2.2
      · rw [if_neg hq]
        exact hdirs q
    rw [List.foldl_cons, hstep, ih (fun e' he' => hsub e' (List.mem_cons_of_mem e he')) (n + 1)
      hdirs₂ fun e' he' => ?_, hnode, List.map_cons]
    · by_cases hq : q = e.1
      · rw [if_pos hq, hq, hf, ite_self, if_pos List.mem_cons_self]
      · rw [if_neg hq]
        simp only [List.mem_cons, hq, false_or]
    · rw [hnode, if_neg, hback e' he']
      intro heq
      exact hout (heq ▸ h.keyed.inRollback he')

theorem Tracked.exit (h : Tracked cfg t s) (raised : Bool)
    (hdigest : ∃ digest, rollbackSnapshotDigest cfg s.tree (touched s) = .ok digest) :
    Undone cfg t (exit cfg raised s).tree := by
  intro q hq
  -- The created files are removed first; no backup is among them.
  have hrestored : (restored s).1.file? q = t.file? q := by
    obtain ⟨hdirs, hremoved⟩ := removeCreated_foldl s.created s.tree
    have hback : ∀ e ∈ s.backups,
        (s.created.foldl removeCreated s.tree).file? e.2 = s.tree.file? e.2 := fun e he => by
      rw [hremoved, if_neg fun hmem => h.outside e.2 hmem (h.keyed.inRollback he)]
    rw [restored, h.restore (fun _ he => he) 0 hdirs hback, hremoved]
    split_ifs with hbackups hcreated
    · rfl
    · exact (h.created q hcreated).1.symm
    · exact h.others q hq hcreated hbackups
  obtain ⟨digest, hdigest⟩ := hdigest
  unfold MutationTx.exit rollback
  rw [if_pos (.inr h.uncommitted), hdigest]
  dsimp only
  cases rollbackSnapshotDigest cfg (clearRollbackDir cfg (restored s).1) (touched s) with
  | error e => exact (file?_clearRollbackDir_of_not cfg _ hq).trans hrestored
  | ok d => exact (file?_clearRollbackDir_of_not cfg _ hq).trans hrestored

/-- A block of calls each of which can be undone, and at the end of which the digest of the touched
files can be computed, leaves the files as they were when it is left without a commit. -/
theorem undone_of_undoable {s₀ : Tx P} {xs : List (Str × MutationTarget P)} (raised : Bool)
    (hstart : start cfg t = some s₀) (h : Meets (applyStep cfg) (Undoable cfg) s₀ xs)
    (hdigest : ∃ digest, rollbackSnapshotDigest cfg (run (applyStep cfg) s₀ xs).tree
      (touched (run (applyStep cfg) s₀ xs)) = .ok digest) :
    Undone cfg t (exit cfg raised (run (applyStep cfg) s₀ xs)).tree := by
  obtain ⟨tree, hdirs, rfl⟩ := Option.map_eq_some_iff.mp hstart
  have htracked : Tracked cfg t ({ tree } : Tx P) :=
    ⟨rfl, fun q _ _ _ => FileTree.file?_mkdirs hdirs q, fun _ hq => absurd hq List.not_mem_nil,
      fun _ he => absurd he List.not_mem_nil, fun _ hq => absurd hq List.not_mem_nil,
      fun _ he => absurd he List.not_mem_nil⟩
  have hkept : Always (applyStep cfg) (Tracked cfg t) ({ tree } : Tx P) xs :=
    always_of_step (fun _ _ hs hx => hs.step hx) htracked h
  exact hkept.last.exit raised hdigest

/-- What the witness below needs of the start. -/
def undoesDocument (s : Tx reference) : Bool :=
  let path := exampleConfig.agent.locate (setTarget 1).path
  let s' := run (applyStep exampleConfig) s [([], setTarget 1)]
  !exampleConfig.rollbackDir.isPrefixOf path && s.created.isEmpty &&
    (s.tree.node (backupOf exampleConfig path)).isNone &&
    encodes exampleConfig.letters exampleConfig.agent (prepare exampleConfig s path).2.tree
      (setTarget 1) &&
    (rollbackSnapshotDigest exampleConfig s'.tree (touched s')).isOk

/-- A document that was there is what it was before a block that raises. -/
theorem undone_of_undoable_document : ∃ s₀, start exampleConfig documentTree = some s₀ ∧
    Undone exampleConfig documentTree
      (exit exampleConfig true (run (applyStep exampleConfig) s₀ [([], setTarget 1)])).tree := by
  have hstarted : (start exampleConfig documentTree).any undoesDocument = true := by decide +kernel
  obtain ⟨s₀, hstart, h⟩ := (Option.any_eq_true _ _).mp hstarted
  unfold undoesDocument at h
  simp only [Bool.and_eq_true, Bool.not_eq_true', List.isEmpty_iff, Option.isNone_iff_eq_none] at h
  obtain ⟨⟨⟨⟨hout, hcreated⟩, hplace⟩, hencodes⟩, hdigest⟩ := h
  refine ⟨s₀, hstart, undone_of_undoable true hstart ⟨⟨fun hin => ?_, fun hmem => ?_, ?_, hencodes⟩,
    trivial⟩ (exists_of_isOk hdigest)⟩
  · rw [List.isPrefixOf_iff_prefix.mpr hin] at hout
    cases hout
  · rw [hcreated] at hmem
    cases hmem
  · rw [hplace]
    exact (Option.some_ne_none _).symm

end Adaad.MutationTx
