import Adaad.Tools.MutationTx

/-!
# What `apply` leaves, and when `verify` takes it

A target that is applied leaves its file with the checksum of its record, and no other file below
the directory of the agent is changed, apart from the backups.  `verify` compares every checksum
with what the file has in the end: it takes the transaction exactly when the records of one file
have one checksum (`verify_ok_iff`).
-/

namespace Adaad.MutationTx

open Py MutationFs

variable {P : Platform}

/-! ### Operations -/

theorem applyOps_count {u : Letters P} {ops : List P.Obj} {data data' : P.Obj} {applied skipped : Nat}
    (h : applyOps u data ops = .ok (data', applied, skipped)) :
    applied + skipped = ops.length := by
  have hfold : ∀ (ops : List P.Obj) (s : P.Obj × Nat × Nat),
      ops.foldlM (fun s op => (applyOp u s.1 op).map fun data => (data, s.2.1 + 1, s.2.2)) s =
        .ok (data', applied, skipped) →
      applied + skipped = s.2.1 + s.2.2 + ops.length := by
    intro ops
    induction ops with
    | nil =>
      intro s h
      obtain rfl := Except.ok.inj h
      rfl
    | cons op ops ih =>
      intro s h
      rw [List.foldlM_cons] at h
      obtain ⟨s', hop, h⟩ := bind_eq_ok.mp h
      obtain ⟨data, -, rfl⟩ := map_eq_ok.mp hop
      have hrest := ih _ h
      dsimp only at hrest
      rw [List.length_cons]
      omega
  have hcount := hfold ops (data, 0, 0) h
  dsimp only at hcount
  omega

theorem mutated_count {u : Letters P} {t : FileTree} {path : List Str} {target : MutationTarget P}
    {text : Str} {applied skipped : Nat} (h : mutated u t path target = .ok (text, applied, skipped)) :
    applied + skipped = target.ops.length := by
  obtain ⟨data, -, h⟩ := bind_eq_ok.mp h
  obtain ⟨⟨data', a, s⟩, hops, h⟩ := bind_eq_ok.mp h
  obtain ⟨-, hcounts⟩ := Prod.mk.inj (Except.ok.inj h)
  obtain ⟨rfl, rfl⟩ := Prod.mk.inj hcounts
  exact applyOps_count hops

/-! ### Targets -/

/-- The directory of the agent is written as it is found. -/
def Canonical (a : Agent) : Prop :=
  a.root.absolute = true ∧ a.dir = a.root.parts

theorem canonical_of_locate {a : Agent} {path : Str} {rel : List Str}
    (h : PurePath.relativeTo (a.locate path) a.root = some rel) : Canonical a := by
  have habs := (PurePath.relativeTo_eq_some.mp h).1
  refine ⟨habs, PurePath.resolve_of_relativeTo h ?_⟩
  unfold PurePath.join
  by_cases hpath : (PurePath.parse path).absolute = true
  · rw [if_pos hpath, hpath]
  · rw [if_neg hpath]
    exact habs

/-- What a target that is let through names. -/
structure Admits (a : Agent) (target : MutationTarget P) (path : List Str) : Prop where
  located : path = a.locate target.path
  relative : (PurePath.parse target.path).absolute = false
  canonical : Canonical a
  /-- It does not lie in a directory with a dot in front. -/
  visible : ∃ c rel, path = a.dir ++ c :: rel ∧ c.head? ≠ some 46

theorem asPosix_cons (c : Str) (rel : List Str) : ∃ s, asPosix (c :: rel) = c ++ s := by
  unfold asPosix
  rw [if_neg (List.cons_ne_nil _ _)]
  cases rel with
  | nil => exact ⟨[], by simp [List.intercalate]⟩
  | cons d rel =>
    rw [List.intercalate_cons_cons, List.append_assoc]
    exact ⟨_, rfl⟩

theorem allowedTargets_eq_some {targetType : Str} {allowlist : List Str}
    (h : allowedTargets targetType = some allowlist) :
    ∀ allowedPrefix ∈ allowlist,
      allowedPrefix ∈ [str "dna.json", str "config/", str "skills/"] := by
  unfold allowedTargets at h
  split_ifs at h <;> obtain rfl := Option.some.inj h <;> decide

theorem not_isAllowed_dot {s allowedPrefix : Str}
    (h : allowedPrefix ∈ [str "dna.json", str "config/", str "skills/"]) :
    isAllowed (46 :: s) allowedPrefix = false := by
  have hhead : allowedPrefix.head? ≠ some 46 ∧ allowedPrefix ≠ [] := by
    revert allowedPrefix
    decide
  obtain ⟨hhead, hne⟩ := hhead
  obtain ⟨a, rest, rfl⟩ := List.exists_cons_of_ne_nil hne
  have ha : a ≠ 46 := fun ha => hhead (by rw [ha]; rfl)
  unfold isAllowed
  simp [List.isPrefixOf, ha, Ne.symm ha]

theorem exists_of_allowed {allowlist : List Str} {rel : List Str} {targetType : Str}
    (hlist : allowedTargets targetType = some allowlist)
    (h : allowlist.any (isAllowed (asPosix rel)) = true) :
    ∃ c rest, rel = c :: rest ∧ c.head? ≠ some 46 := by
  obtain ⟨allowedPrefix, hmem, hallowed⟩ := List.any_eq_true.mp h
  have hprefix := allowedTargets_eq_some hlist allowedPrefix hmem
  cases rel with
  | nil =>
    rw [show asPosix [] = 46 :: [] from rfl, not_isAllowed_dot hprefix] at hallowed
    cases hallowed
  | cons c rest =>
    refine ⟨c, rest, rfl, ?_⟩
    intro hdot
    obtain ⟨s, hs⟩ := asPosix_cons c rest
    obtain ⟨c', rfl⟩ : ∃ c', c = 46 :: c' := by
      cases c with
      | nil => cases hdot
      | cons a c' => exact ⟨c', by rw [Option.some.inj hdot]⟩
    rw [hs, List.cons_append, not_isAllowed_dot hprefix] at hallowed
    cases hallowed

theorem admits_of_validateTarget {a : Agent} {t : FileTree} {target : MutationTarget P}
    {path : List Str} (h : validateTarget a t target = .ok path) : Admits a target path := by
  unfold validateTarget at h
  by_cases hpath : target.path = []
  · rw [if_pos hpath] at h
    cases h
  by_cases htype : target.targetType = []
  · rw [if_neg hpath, if_pos htype] at h
    cases h
  rw [if_neg hpath, if_neg htype] at h
  dsimp only [bind, Except.bind, pure, Except.pure] at h
  unfold normalizeTargetPath at h
  by_cases habs : (PurePath.parse target.path).absolute = true
  · rw [if_pos habs] at h
    cases h
  by_cases hin : a.dir <+: a.locate target.path
  · rw [if_neg habs, if_neg (not_not.mpr hin)] at h
    dsimp only at h
    cases hlist : allowedTargets target.targetType with
    | none =>
      rw [hlist] at h
      cases h
    | some allowlist =>
      rw [hlist] at h
      dsimp only at h
      cases hrel : PurePath.relativeTo (a.locate target.path) a.root with
      | none =>
        rw [hrel] at h
        cases h
      | some rel =>
        rw [hrel] at h
        dsimp only at h
        have hcanon := canonical_of_locate hrel
        cases hcheck : checkPath t allowlist (a.locate target.path) rel with
        | error e =>
          rw [hcheck] at h
          cases h
        | ok _ =>
          rw [hcheck] at h
          obtain rfl := Except.ok.inj h
          have hallowed : allowlist.any (isAllowed (asPosix rel)) = true := by
            by_contra hnot
            unfold checkPath at hcheck
            rw [if_pos hnot] at hcheck
            cases hcheck
          obtain ⟨c, rest, rfl, hdot⟩ := exists_of_allowed hlist hallowed
          refine ⟨rfl, Bool.not_eq_true _ ▸ habs, hcanon, c, rest, ?_, hdot⟩
          rw [hcanon.2]
          exact (PurePath.relativeTo_eq_some.mp hrel).2
  · rw [if_neg habs, if_pos hin] at h
    cases h

theorem Admits.isPrefix_dir {a : Agent} {target : MutationTarget P} {path : List Str}
    (h : Admits a target path) : a.dir <+: path := by
  obtain ⟨c, rel, rfl, -⟩ := h.visible
  exact List.prefix_append _ _

/-! ### The write -/

/-- Where the write of a file may leave something: above the file, and beside it. -/
def Beside (path q : List Str) : Prop :=
  q <+: path.dropLast ∨ ∃ name, q = path.dropLast ++ [name]

def Adds (path : List Str) (t t' : FileTree) : Prop :=
  ∀ q, t'.node q = t.node q ∨ t.node q = none ∧ Beside path q

/-- A file is written, and directories for it are made. -/
structure Writes (path : List Str) (b : Bytes) (t t' : FileTree) : Prop where
  file : t'.file? path = some { content := b }
  others : ∀ q, q ≠ path → t'.file? q = t.file? q

theorem Adds.refl (path : List Str) (t : FileTree) : Adds path t t := fun _ => .inl rfl

theorem Adds.file? {path q : List Str} {t t' : FileTree} {f : File} (h : Adds path t t')
    (hf : t.file? q = some f) : t'.file? q = some f := by
  rw [FileTree.file?_eq_some] at hf ⊢
  rcases h q with hq | ⟨hq, -⟩
  · rw [hq, hf]
  · rw [hf] at hq
    cases hq

theorem adds_of_mkdirs {path : List Str} {t t' : FileTree}
    (h : t.mkdirs path.dropLast = some t') : Adds path t t' := by
  intro q
  by_cases hq : t.node q = none
  · by_cases hpre : q <+: path.dropLast
    · exact .inr ⟨hq, .inl hpre⟩
    · rw [FileTree.node_mkdirs h, if_neg hpre]
      exact .inl rfl
  · exact .inl (FileTree.node_mkdirs_of_ne_none h hq)

theorem replaceFile_cases (t : FileTree) (path : List Str) (temp serialized : Str) :
    (∃ e, (replaceFile t path temp serialized).1 = .error e ∧
      Adds path t (replaceFile t path temp serialized).2) ∨
    ∃ b, (replaceFile t path temp serialized).1 = .ok b ∧ encode serialized = some b ∧
      Writes path b t (replaceFile t path temp serialized).2 := by
  unfold replaceFile
  cases hdirs : t.mkdirs path.dropLast with
  | none => exact .inl ⟨_, rfl, Adds.refl _ _⟩
  | some t₁ =>
    have hadds := adds_of_mkdirs hdirs
    dsimp only
    cases hb : encode serialized with
    | none =>
      refine .inl ⟨_, rfl, ?_⟩
      dsimp only
      by_cases hthere : t₁.pathExists (path.dropLast ++ [temp]) = true
      · rw [if_pos hthere]
        exact hadds
      · rw [if_neg hthere]
        cases hwrite : t₁.write (path.dropLast ++ [temp]) { content := [] } with
        | none => exact hadds
        | some t₂ =>
          intro q
          rw [Option.getD_some, FileTree.node_write hwrite]
          by_cases hq : q = path.dropLast ++ [temp]
          · have hnone : t.node q = none := by
              rw [FileTree.pathExists, Option.not_isSome_iff_eq_none, ← hq] at hthere
              by_contra hsome
              rw [FileTree.node_mkdirs_of_ne_none hdirs hsome] at hthere
              exact hsome hthere
            exact .inr ⟨hnone, .inr ⟨temp, hq⟩⟩
          · rw [if_neg hq]
            exact hadds q
    | some b =>
      dsimp only
      cases hwrite : t₁.write path { content := b } with
      | none => exact .inl ⟨_, rfl, hadds⟩
      | some t₂ =>
        refine .inr ⟨b, rfl, rfl, ?_, ?_⟩
        · rw [FileTree.file?_eq_some, FileTree.node_write hwrite, if_pos rfl]
        · intro q hq
          rw [← FileTree.file?_mkdirs hdirs q, FileTree.file?, FileTree.file?,
            FileTree.node_write hwrite, if_neg hq]

/-- What a target that is applied leaves. -/
structure Applied (a : Agent) (t t' : FileTree) (target : MutationTarget P)
    (result : MutationApplyResult) : Prop where
  admits : Admits a target result.path
  accounted : result.applied + result.skipped = target.ops.length
  wrote : ∃ b, result.checksum = P.sha256 b ∧ Writes result.path b t t'

/-- What a target that is not applied may leave. -/
def Refused (a : Agent) (t t' : FileTree) (target : MutationTarget P) : Prop :=
  t' = t ∨ ∃ path, Admits a target path ∧ Adds path t t'

theorem applyTarget_cases (u : Letters P) (a : Agent) (t : FileTree) (temp : Str)
    (target : MutationTarget P) :
    (∃ e, (applyTarget u a t temp target).1 = .error e ∧
      Refused a t (applyTarget u a t temp target).2 target) ∨
    ∃ result, (applyTarget u a t temp target).1 = .ok result ∧
      Applied a t (applyTarget u a t temp target).2 target result := by
  unfold applyTarget
  cases hvalid : validateTarget a t target with
  | error e => exact .inl ⟨e, rfl, .inl rfl⟩
  | ok path =>
    have hadmits := admits_of_validateTarget hvalid
    dsimp only
    cases hmut : mutated u t path target with
    | error e => exact .inl ⟨e, rfl, .inl rfl⟩
    | ok m =>
      obtain ⟨serialized, applied, skipped⟩ := m
      dsimp only
      rcases hrep : replaceFile t path temp serialized with ⟨e | b, t'⟩
      · obtain ⟨-, -, hadds⟩ | ⟨b, hok, -, -⟩ := replaceFile_cases t path temp serialized
        · rw [hrep] at hadds
          exact .inl ⟨e, rfl, .inr ⟨path, hadmits, hadds⟩⟩
        · rw [hrep] at hok
          cases hok
      · obtain ⟨e, herr, -⟩ | ⟨b', hok, -, hwrites⟩ := replaceFile_cases t path temp serialized
        · rw [hrep] at herr
          cases herr
        · rw [hrep] at hok hwrites
          obtain rfl := Except.ok.inj hok
          exact .inr ⟨_, rfl, hadmits, mutated_count hmut, b, rfl, hwrites⟩

/-! ### The backup -/

variable {cfg : Config P} {s : Tx P} {path : List Str}

def InRollback (cfg : Config P) (q : List Str) : Prop :=
  cfg.rollbackDir <+: q

theorem Admits.not_inRollback {target : MutationTarget P} (h : Admits cfg.agent target path) :
    ¬ InRollback cfg path := by
  obtain ⟨c, rel, rfl, hdot⟩ := h.visible
  intro hin
  rw [InRollback, Config.rollbackDir, List.prefix_append_right_inj] at hin
  have hc := (List.cons_prefix_cons.mp hin).1
  rw [← hc] at hdot
  exact hdot (by decide)

theorem Admits.not_inRollback_beside {target : MutationTarget P} {q : List Str}
    (h : Admits cfg.agent target path) (hq : Beside path q) : ¬ InRollback cfg q := by
  intro hin
  rcases hq with hpre | ⟨name, rfl⟩
  · exact h.not_inRollback (hin.trans (hpre.trans (List.dropLast_prefix _)))
  · obtain ⟨c, rel, rfl, hdot⟩ := h.visible
    rw [List.dropLast_append_of_ne_nil (List.cons_ne_nil c rel), List.append_assoc, InRollback,
      Config.rollbackDir, List.prefix_append_right_inj] at hin
    cases rel with
    | nil =>
      have hlen := hin.length_le
      simp at hlen
    | cons d rel =>
      rw [List.dropLast_cons_of_ne_nil (List.cons_ne_nil d rel), List.cons_append] at hin
      have hc := (List.cons_prefix_cons.mp hin).1
      rw [← hc] at hdot
      exact hdot (by decide)

/-- What `apply` does before the target is applied: a file is backed up, or directories for its
backup are made at most and the call ends, or a file is noted as created, or nothing is done. -/
theorem prepare_cases (cfg : Config P) (s : Tx P) (path : List Str) :
    (∃ e rel tree, prepare cfg s path = (.error e, { s with tree }) ∧
      s.tree.pathExists path = true ∧ PurePath.relativeTo path cfg.agent.root = some rel ∧
      s.tree.mkdirs (cfg.rollbackDir ++ rel).dropLast = some tree) ∨
    (∃ e, prepare cfg s path = (.error e, s)) ∨
    (∃ rel t₁ tree, prepare cfg s path =
        (.ok (), { s with tree, backups := s.backups ++ [(path, cfg.rollbackDir ++ rel)] }) ∧
      path ∉ s.backups.map Prod.fst ∧
      PurePath.relativeTo path cfg.agent.root = some rel ∧
      s.tree.mkdirs (cfg.rollbackDir ++ rel).dropLast = some t₁ ∧
      t₁.copy2 path (cfg.rollbackDir ++ rel) = some tree) ∨
    (prepare cfg s path = (.ok (), { s with created := s.created ++ [path] }) ∧
      s.tree.node path = none) ∨
    (prepare cfg s path = (.ok (), s) ∧ path ∈ s.backups.map Prod.fst) := by
  unfold prepare
  by_cases hback : s.tree.pathExists path = true ∧ path ∉ s.backups.map Prod.fst
  · rw [if_pos hback, backUp]
    cases hrel : PurePath.relativeTo path cfg.agent.root with
    | none => exact .inr (.inl ⟨_, rfl⟩)
    | some rel =>
      dsimp only
      cases hdirs : s.tree.mkdirs (cfg.rollbackDir ++ rel).dropLast with
      | none => exact .inr (.inl ⟨_, rfl⟩)
      | some t₁ =>
        dsimp only
        cases hcopy : t₁.copy2 path (cfg.rollbackDir ++ rel) with
        | none => exact .inl ⟨_, rel, t₁, rfl, hback.1, rfl, hdirs⟩
        | some tree => exact .inr (.inr (.inl ⟨rel, t₁, tree, rfl, hback.2, rfl, hdirs, hcopy⟩))
  · rw [if_neg hback]
    by_cases hnone : ¬ s.tree.pathExists path = true
    · rw [if_pos hnone]
      rw [FileTree.pathExists, Option.not_isSome_iff_eq_none] at hnone
      exact .inr (.inr (.inr (.inl ⟨rfl, hnone⟩)))
    · rw [if_neg hnone]
      exact .inr (.inr (.inr (.inr ⟨rfl, not_not.mp fun h => hback ⟨not_not.mp hnone, h⟩⟩)))

theorem inRollback_append (cfg : Config P) (rel : List Str) : InRollback cfg (cfg.rollbackDir ++ rel) :=
  List.prefix_append _ _

theorem inRollback_copyTarget {t : FileTree} {rel : List Str} :
    InRollback cfg (t.copyTarget path (cfg.rollbackDir ++ rel)) := by
  unfold FileTree.copyTarget
  split_ifs
  · rw [List.append_assoc]
    exact inRollback_append cfg _
  · exact inRollback_append cfg _

theorem file?_backup {t t₁ tree : FileTree} {dirs rel q : List Str}
    (hdirs : t.mkdirs dirs = some t₁) (hcopy : t₁.copy2 path (cfg.rollbackDir ++ rel) = some tree)
    (hq : ¬ InRollback cfg q) : tree.file? q = t.file? q := by
  obtain ⟨f, -, hwrite⟩ := FileTree.copy2_eq_some.mp hcopy
  have hne : q ≠ t₁.copyTarget path (cfg.rollbackDir ++ rel) := by
    rintro rfl
    exact hq inRollback_copyTarget
  rw [← FileTree.file?_mkdirs hdirs q, FileTree.file?, FileTree.file?, FileTree.node_write hwrite,
    if_neg hne]

theorem file?_prepare (cfg : Config P) (s : Tx P) (path : List Str) {q : List Str}
    (hq : ¬ InRollback cfg q) : (prepare cfg s path).2.tree.file? q = s.tree.file? q := by
  obtain ⟨e, rel, tree, h, -, -, hdirs⟩ | ⟨e, h⟩ | ⟨rel, t₁, tree, h, -, -, hdirs, hcopy⟩ |
    ⟨h, -⟩ | ⟨h, -⟩ := prepare_cases cfg s path
  · rw [h]
    exact FileTree.file?_mkdirs hdirs q
  · rw [h]
  · rw [h]
    exact file?_backup hdirs hcopy hq
  · rw [h]
  · rw [h]

theorem records_prepare (cfg : Config P) (s : Tx P) (path : List Str) :
    (prepare cfg s path).2.records = s.records := by
  obtain ⟨e, rel, tree, h, -⟩ | ⟨e, h⟩ | ⟨rel, t₁, tree, h, -⟩ | ⟨h, -⟩ | ⟨h, -⟩ :=
    prepare_cases cfg s path <;> rw [h]

theorem apply_eq_ok {temp : Str} {target : MutationTarget P} {result : MutationApplyResult}
    {s' : Tx P} (h : apply cfg s temp target = (.ok result, s')) :
    ∃ s₁, prepare cfg s (cfg.agent.locate target.path) = (.ok (), s₁) ∧
      Applied cfg.agent s₁.tree s'.tree target result ∧
      s' = { s₁ with tree := s'.tree, records := s₁.records ++ [⟨target, result⟩] } := by
  unfold apply at h
  rcases hprep : prepare cfg s (cfg.agent.locate target.path) with ⟨e | _, s₁⟩
  · rw [hprep] at h
    cases h
  · rw [hprep] at h
    dsimp only at h
    obtain ⟨e, he, -⟩ | ⟨r, hr, happlied⟩ :=
      applyTarget_cases cfg.letters cfg.agent s₁.tree temp target
    · rcases htarget : applyTarget cfg.letters cfg.agent s₁.tree temp target with ⟨e' | r, tree⟩
      · rw [htarget] at h
        cases h
      · rw [htarget] at he
        cases he
    · rcases htarget : applyTarget cfg.letters cfg.agent s₁.tree temp target with ⟨e | r', tree⟩
      · rw [htarget] at hr
        cases hr
      · rw [htarget] at h hr happlied
        obtain rfl := Except.ok.inj hr
        dsimp only at h
        obtain ⟨hresult, rfl⟩ := Prod.mk.inj h
        obtain rfl := Except.ok.inj hresult
        exact ⟨s₁, rfl, happlied, rfl⟩

/-! ### Several targets -/

/-- The targets are applied one after the other, and each call returns. -/
def applyAll (cfg : Config P) : Tx P → List (Str × MutationTarget P) → Except MutationFs.Fault (Tx P)
  | s, [] => .ok s
  | s, x :: xs =>
    match apply cfg s x.1 x.2 with
    | (.error e, _) => .error e
    | (.ok _, s) => applyAll cfg s xs

theorem applyAll_induct {J : Tx P → Prop} {s s' : Tx P} {xs : List (Str × MutationTarget P)}
    (hstep : ∀ s temp target result s', J s → apply cfg s temp target = (.ok result, s') → J s')
    (hs : J s) (h : applyAll cfg s xs = .ok s') : J s' := by
  induction xs generalizing s with
  | nil =>
    obtain rfl := Except.ok.inj h
    exact hs
  | cons x xs ih =>
    rw [applyAll] at h
    rcases happly : apply cfg s x.1 x.2 with ⟨e | result, s₁⟩
    · rw [happly] at h
      cases h
    · rw [happly] at h
      exact ih (hstep s x.1 x.2 result s₁ hs happly) h

/-- The records are those of targets that were let through, and each of their files has the
checksum of one of its records. -/
structure Recorded (cfg : Config P) (s : Tx P) : Prop where
  admits : ∀ r ∈ s.records, Admits cfg.agent r.target r.result.path
  accounted : ∀ r ∈ s.records, r.result.applied + r.result.skipped = r.target.ops.length
  last : ∀ r ∈ s.records, ∃ r' ∈ s.records, r'.result.path = r.result.path ∧
    checksumMatches (P := P) s.tree r'.result = true

theorem checksumMatches_congr {t t' : FileTree} {r : MutationApplyResult}
    (h : t'.file? r.path = t.file? r.path) :
    checksumMatches (P := P) t' r = checksumMatches (P := P) t r := by
  unfold checksumMatches
  rw [h]

theorem Recorded.apply (hs : Recorded cfg s) {temp : Str} {target : MutationTarget P}
    {result : MutationApplyResult} {s' : Tx P} (h : apply cfg s temp target = (.ok result, s')) :
    Recorded cfg s' := by
  obtain ⟨s₁, hprep, happlied, hs'⟩ := apply_eq_ok h
  have hrecords₁ : s₁.records = s.records := by
    have hrec := records_prepare cfg s (cfg.agent.locate target.path)
    rwa [hprep] at hrec
  have hrecords : s'.records = s.records ++ [⟨target, result⟩] := by rw [hs', hrecords₁]
  obtain ⟨b, hchecksum, hwrites⟩ := happlied.wrote
  have hnew : checksumMatches (P := P) s'.tree result = true := by
    unfold checksumMatches
    rw [hwrites.file, Option.any_some, hchecksum]
    exact decide_eq_true rfl
  have hmem : (⟨target, result⟩ : MutationRecord P) ∈ s'.records := by
    rw [hrecords]
    exact List.mem_append_right _ List.mem_cons_self
  refine ⟨?_, ?_, ?_⟩
  · rw [hrecords]
    intro r hr
    rcases List.mem_append.mp hr with hr | hr
    · exact hs.admits r hr
    · rw [List.mem_singleton.mp hr]
      exact happlied.admits
  · rw [hrecords]
    intro r hr
    rcases List.mem_append.mp hr with hr | hr
    · exact hs.accounted r hr
    · rw [List.mem_singleton.mp hr]
      exact happlied.accounted
  · intro r hr
    by_cases hpath : result.path = r.result.path
    · exact ⟨_, hmem, hpath, hnew⟩
    · rw [hrecords] at hr
      rcases List.mem_append.mp hr with hr | hr
      · obtain ⟨r', hr', hsame, hmatch⟩ := hs.last r hr
        refine ⟨r', ?_, hsame, ?_⟩
        · rw [hrecords]
          exact List.mem_append_left _ hr'
        · have hout := (hs.admits r' hr').not_inRollback
          have hprepared := file?_prepare cfg s (cfg.agent.locate target.path) hout
          rw [hprep] at hprepared
          have hne : r'.result.path ≠ result.path := by
            rw [hsame]
            exact Ne.symm hpath
          rw [← hmatch]
          exact checksumMatches_congr ((hwrites.others _ hne).trans hprepared)
      · rw [List.mem_singleton.mp hr] at hpath
        exact absurd rfl hpath

/-! ### Verification -/

theorem targetResolved_eq {r : MutationRecord P}
    (h : Admits cfg.agent r.target r.result.path) : targetResolved cfg r = r.result.path := by
  rw [h.located]
  unfold targetResolved Agent.locate PurePath.join
  rw [if_neg (by rw [h.relative]; exact Bool.false_ne_true)]
  unfold PurePath.resolve
  dsimp only
  rw [if_neg (by rw [h.relative]; exact Bool.false_ne_true), List.foldl_append]
  rfl

theorem isSome_insideOf {q : List Str} : (insideOf cfg q).isSome = true ↔ cfg.agent.dir <+: q := by
  unfold insideOf
  split_ifs with h <;> simp [h]

theorem stable_self {c : Prop} [Decidable c] {xs : List (List Str)} (h : c → xs ≠ []) :
    (if c then xs.all (· ∈ xs) && xs.all (· ∈ xs) && decide (xs ≠ []) else true) = true := by
  have hall : xs.all (· ∈ xs) = true := List.all_eq_true.mpr fun x hx => decide_eq_true hx
  by_cases hc : c
  · rw [if_pos hc, hall, decide_eq_true (h hc)]
    rfl
  · rw [if_neg hc]

theorem Recorded.verification_ok_iff (hs : Recorded cfg s) :
    (verification cfg s).ok = true ↔
      ∀ r ∈ s.records, checksumMatches (P := P) s.tree r.result = true := by
  have hsame : ∀ r ∈ s.records, targetResolved cfg r = r.result.path := fun r hr =>
    targetResolved_eq (hs.admits r hr)
  have hinside : ∀ r ∈ s.records, (insideOf cfg r.result.path).isSome = true := fun r hr =>
    isSome_insideOf.mpr (hs.admits r hr).isPrefix_dir
  have hsets : (s.records.filterMap fun r => insideOf cfg (targetResolved cfg r)) =
      s.records.filterMap fun r => insideOf cfg r.result.path :=
    List.filterMap_congr fun r hr => by rw [hsame r hr]
  have hpaths : (s.records.all fun r => (insideOf cfg (targetResolved cfg r)).isSome &&
      (insideOf cfg r.result.path).isSome) = true := by
    rw [List.all_eq_true]
    intro r hr
    rw [hsame r hr, hinside r hr]
    rfl
  have hmeta : ((s.records.map (metadataCheck cfg s.tree)).all fun c =>
      c.checksumMatchesFile && c.opsAccounted) = true ↔
      ∀ r ∈ s.records, checksumMatches (P := P) s.tree r.result = true := by
    rw [List.all_map, List.all_eq_true]
    refine forall₂_congr fun r hr => ?_
    have hops : opsAccounted r = true := decide_eq_true (hs.accounted r hr)
    show (checksumMatches (P := P) s.tree r.result && opsAccounted r) = true ↔ _
    rw [hops, Bool.and_true]
  have hne : s.records ≠ [] → (s.records.filterMap fun r => insideOf cfg r.result.path) ≠ [] := by
    intro hnil hempty
    obtain ⟨r, rs, hrecords⟩ := List.exists_cons_of_ne_nil hnil
    have hr : r ∈ s.records := by
      rw [hrecords]
      exact List.mem_cons_self
    obtain ⟨x, hx⟩ := Option.isSome_iff_exists.mp (hinside r hr)
    have hmem : x ∈ s.records.filterMap fun r => insideOf cfg r.result.path :=
      List.mem_filterMap.mpr ⟨r, hr, hx⟩
    rw [hempty] at hmem
    cases hmem
  unfold verification
  dsimp only
  rw [hsets, hpaths, stable_self hne, Bool.true_and, Bool.and_true]
  exact hmeta

/-- The records of one file have one checksum. -/
def Agree (s : Tx P) : Prop :=
  ∀ r ∈ s.records, ∀ r' ∈ s.records, r.result.path = r'.result.path →
    r.result.checksum = r'.result.checksum

theorem checksum_eq_of_matches {t : FileTree} {r r' : MutationApplyResult} (hpath : r.path = r'.path)
    (h : checksumMatches (P := P) t r = true) (h' : checksumMatches (P := P) t r' = true) :
    r.checksum = r'.checksum := by
  unfold checksumMatches at h h'
  rw [hpath] at h
  cases hf : t.file? r'.path with
  | none =>
    rw [hf] at h
    cases h
  | some f =>
    rw [hf] at h h'
    exact (of_decide_eq_true h).symm.trans (of_decide_eq_true h')

theorem Recorded.matches_iff (hs : Recorded cfg s) :
    (∀ r ∈ s.records, checksumMatches (P := P) s.tree r.result = true) ↔ Agree s := by
  constructor
  · intro h r hr r' hr' hpath
    exact checksum_eq_of_matches hpath (h r hr) (h r' hr')
  · intro h r hr
    obtain ⟨r', hr', hpath, hmatch⟩ := hs.last r hr
    unfold checksumMatches at hmatch ⊢
    rw [← hpath, h r hr r' hr' hpath.symm]
    exact hmatch

theorem recorded_of_applyAll {t : FileTree} {s₀ : Tx P} {xs : List (Str × MutationTarget P)}
    (hstart : start cfg t = some s₀) (h : applyAll cfg s₀ xs = .ok s) : Recorded cfg s := by
  refine applyAll_induct (J := Recorded cfg) (fun s temp target result s' hs => hs.apply) ?_ h
  obtain ⟨tree, -, rfl⟩ := Option.map_eq_some_iff.mp hstart
  exact ⟨fun r hr => absurd hr List.not_mem_nil, fun r hr => absurd hr List.not_mem_nil,
    fun r hr => absurd hr List.not_mem_nil⟩

/-- A transaction all of whose targets were applied is verified exactly when no file was left with
two checksums. -/
theorem verify_ok_iff {t : FileTree} {s₀ : Tx P} {xs : List (Str × MutationTarget P)}
    (hstart : start cfg t = some s₀) (h : applyAll cfg s₀ xs = .ok s) :
    (∃ v, verify cfg s = .ok v ∧ v.ok = true) ↔
      ∀ r ∈ s.records, ∀ r' ∈ s.records, r.result.path = r'.result.path →
        r.result.checksum = r'.result.checksum := by
  have hs := recorded_of_applyAll hstart h
  refine Iff.trans ?_ (hs.verification_ok_iff.trans hs.matches_iff)
  unfold verify
  constructor
  · rintro ⟨v, hv, hok⟩
    by_cases hver : (verification cfg s).ok = true
    · exact hver
    · rw [if_neg hver] at hv
      cases hv
  · intro hok
    rw [if_pos hok]
    exact ⟨_, rfl, hok⟩

/-! ### A file that is set twice -/

/-- The directory `/a`, with the working directory `/`. -/
def exampleConfig : Config reference where
  letters := referenceLetters
  agent := ⟨PurePath.parse (str "/a"), []⟩
  txId := str "t"

/-- A target that sets a member of a document. -/
def setTarget (n : Int) : MutationTarget reference where
  path := str "dna.json"
  targetType := str "dna"
  ops := [.dict [(.str (str "op"), .str (str "set")), (.str (str "path"), .str (str "/x")),
    (.str (str "value"), .int n)]]

/-- The targets are applied to an empty directory: whether they are, and whether `verify` takes
it. -/
def trial (xs : List (Str × MutationTarget reference)) : Option Bool :=
  match start exampleConfig FileTree.empty with
  | none => none
  | some s₀ =>
    match applyAll exampleConfig s₀ xs with
    | .error _ => none
    | .ok s => some (verification exampleConfig s).ok

theorem exists_of_trial {xs : List (Str × MutationTarget reference)} {ok : Bool}
    (h : trial xs = some ok) : ∃ s₀ s, start exampleConfig FileTree.empty = some s₀ ∧
      applyAll exampleConfig s₀ xs = .ok s ∧ (verification exampleConfig s).ok = ok := by
  unfold trial at h
  cases hstart : start exampleConfig FileTree.empty with
  | none =>
    rw [hstart] at h
    cases h
  | some s₀ =>
    rw [hstart] at h
    dsimp only at h
    cases happly : applyAll exampleConfig s₀ xs with
    | error e =>
      rw [happly] at h
      cases h
    | ok s =>
      rw [happly] at h
      exact ⟨s₀, s, rfl, happly, Option.some.inj h⟩

theorem trial_two : trial [([], setTarget 1), ([], setTarget 2)] = some false := by
  decide +kernel

theorem verify_ok_iff_two : ∃ s₀ s, start exampleConfig FileTree.empty = some s₀ ∧
    applyAll exampleConfig s₀ [([], setTarget 1), ([], setTarget 2)] = .ok s ∧
    ((∃ v, verify exampleConfig s = .ok v ∧ v.ok = true) ↔
      ∀ r ∈ s.records, ∀ r' ∈ s.records, r.result.path = r'.result.path →
        r.result.checksum = r'.result.checksum) := by
  obtain ⟨s₀, s, hstart, happly, -⟩ := exists_of_trial trial_two
  exact ⟨s₀, s, hstart, happly, verify_ok_iff hstart happly⟩

/-- The file is set to one value and then to another, and `verify` rejects the transaction. -/
theorem not_verify_ok : ¬ ∀ (cfg : Config reference) (t : FileTree) (s₀ s : Tx reference)
    (xs : List (Str × MutationTarget reference)), start cfg t = some s₀ →
      applyAll cfg s₀ xs = .ok s → ∃ v, verify cfg s = .ok v ∧ v.ok = true := by
  intro h
  obtain ⟨s₀, s, hstart, happly, hok⟩ := exists_of_trial trial_two
  obtain ⟨v, hv, -⟩ := h _ _ _ _ _ hstart happly
  unfold verify at hv
  rw [hok, if_neg Bool.false_ne_true] at hv
  cases hv

end Adaad.MutationTx
