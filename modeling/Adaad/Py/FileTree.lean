import Adaad.Py.Path
import Adaad.Py.Utf8
import Mathlib.Data.List.Infix
import Mathlib.Logic.Function.Basic

/-!
# Trees of files

The files and directories below the root of a file system without links.  A path is the list of its
components; a directory has to be there for what it holds, which every operation keeps.

An operation that may raise gives no tree then.
-/

namespace Py

structure File where
  content : Bytes
  writable : Bool := true
  executable : Bool := false
  deriving DecidableEq, Repr

inductive Node where
  | file (f : File)
  | dir
  deriving DecidableEq, Repr

/-- What there is at each path. -/
structure FileTree where
  node : List Str → Option Node
  node_nil : node [] = some .dir
  node_parent : ∀ dir name, node (dir ++ [name]) ≠ none → node dir = some .dir

namespace FileTree

def empty : FileTree where
  node p := if p = [] then some .dir else none
  node_nil := rfl
  node_parent dir name h := by
    rw [if_neg (by simp)] at h
    exact absurd rfl h

variable (t : FileTree) (p q : List Str)

/-- `path.exists()` -/
def pathExists : Bool :=
  (t.node p).isSome

/-- `path.is_file()`, with the file. -/
def file? : Option File :=
  match t.node p with
  | some (.file f) => some f
  | _ => none

variable {t p q}

theorem file?_eq_some {f : File} : t.file? p = some f ↔ t.node p = some (.file f) := by
  unfold file?
  rcases t.node p with _ | (g | _) <;> simp

theorem file?_eq_none : t.file? p = none ↔ ∀ f, t.node p ≠ some (.file f) := by
  unfold file?
  rcases t.node p with _ | (g | _) <;> simp

theorem node_of_append {r : List Str} (h : t.node (p ++ r) ≠ none) (hr : r ≠ []) :
    t.node p = some .dir := by
  induction r using List.reverseRecOn with
  | nil => exact absurd rfl hr
  | append_singleton r c ih =>
    rw [← List.append_assoc] at h
    have hdir := t.node_parent _ _ h
    rcases List.eq_nil_or_concat r with rfl | ⟨r', c', rfl⟩
    · rwa [List.append_nil] at hdir
    · exact ih (by rw [hdir]; simp) (by simp)

theorem node_of_prefix (hpq : p <+: q) (hne : p ≠ q) (h : t.node q ≠ none) :
    t.node p = some .dir := by
  obtain ⟨r, rfl⟩ := hpq
  refine node_of_append h ?_
  rintro rfl
  exact hne (List.append_nil p).symm

/-! ### Writing a file -/

variable (t p q) in
/-- A file can be put there: the directory is there, and none of the name. -/
def Takes : Prop :=
  p ≠ [] ∧ t.node p.dropLast = some .dir ∧ t.node p ≠ some .dir

instance : Decidable (t.Takes p) :=
  inferInstanceAs (Decidable (_ ∧ _ ∧ _))

variable (t p) in
def write (f : File) : Option FileTree :=
  if h : t.Takes p then
    some {
      node := Function.update t.node p (some (.file f))
      node_nil := by
        rw [Function.update_of_ne h.1.symm]
        exact t.node_nil
      node_parent := by
        intro dir name hnode
        by_cases hp : dir ++ [name] = p
        · have hdir : p.dropLast = dir := by rw [← hp, List.dropLast_concat]
          have hne : dir ≠ p := by
            rintro rfl
            exact absurd (congrArg List.length hp) (by simp)
          rw [Function.update_of_ne hne, ← hdir]
          exact h.2.1
        · rw [Function.update_of_ne hp] at hnode
          have hdir := t.node_parent dir name hnode
          have hne : dir ≠ p := by
            rintro rfl
            exact h.2.2 hdir
          rw [Function.update_of_ne hne, hdir] }
  else none

theorem takes_of_write {f : File} {t' : FileTree} (h : t.write p f = some t') : t.Takes p := by
  by_contra hnot
  rw [write, dif_neg hnot] at h
  cases h

theorem node_write {f : File} {t' : FileTree} (h : t.write p f = some t') (q : List Str) :
    t'.node q = if q = p then some (.file f) else t.node q := by
  rw [write, dif_pos (takes_of_write h)] at h
  rw [← congrArg FileTree.node (Option.some.inj h)]
  exact Function.update_apply _ _ _ _

theorem exists_write (f : File) (h : t.Takes p) : ∃ t', t.write p f = some t' := by
  rw [write, dif_pos h]
  exact ⟨_, rfl⟩

/-! ### Directories -/

variable (t p) in
/-- `path.mkdir(parents=True, exist_ok=True)` -/
def mkdirs : Option FileTree :=
  if h : ∃ q ∈ p.inits, (t.file? q).isSome then none
  else
    some {
      node := fun q => if q <+: p then some .dir else t.node q
      node_nil := if_pos List.nil_prefix
      node_parent := by
        intro dir name hnode
        by_cases hdir : dir <+: p
        · rw [if_pos hdir]
        · rw [if_neg hdir]
          have hname : ¬ dir ++ [name] <+: p := fun hp => hdir ((List.prefix_append _ _).trans hp)
          rw [if_neg hname] at hnode
          exact t.node_parent dir name hnode }

theorem not_file_of_mkdirs {t' : FileTree} (h : t.mkdirs p = some t') (hq : q <+: p) :
    t.file? q = none := by
  by_contra hfile
  have hsome : (t.file? q).isSome = true := by
    rcases hf : t.file? q with _ | f
    · exact absurd hf hfile
    · rfl
  rw [mkdirs, dif_pos ⟨q, (List.mem_inits _ _).mpr hq, hsome⟩] at h
  cases h

theorem node_mkdirs {t' : FileTree} (h : t.mkdirs p = some t') (q : List Str) :
    t'.node q = if q <+: p then some .dir else t.node q := by
  have hnone : ¬ ∃ q ∈ p.inits, (t.file? q).isSome = true := by
    rintro ⟨q, hq, hsome⟩
    rw [not_file_of_mkdirs h ((List.mem_inits _ _).mp hq)] at hsome
    cases hsome
  rw [mkdirs, dif_neg hnone] at h
  rw [← congrArg FileTree.node (Option.some.inj h)]

theorem file?_mkdirs {t' : FileTree} (h : t.mkdirs p = some t') (q : List Str) :
    t'.file? q = t.file? q := by
  have hnode := node_mkdirs h q
  by_cases hq : q <+: p
  · rw [not_file_of_mkdirs h hq, file?, hnode, if_pos hq]
  · rw [file?, file?, hnode, if_neg hq]

theorem node_mkdirs_of_ne_none {t' : FileTree} (h : t.mkdirs p = some t') (hq : t.node q ≠ none) :
    t'.node q = t.node q := by
  rw [node_mkdirs h]
  by_cases hpre : q <+: p
  · have hfile := file?_eq_none.mp (not_file_of_mkdirs h hpre)
    rw [if_pos hpre]
    rcases hn : t.node q with _ | (f | _)
    · exact absurd hn hq
    · exact absurd hn (hfile f)
    · rfl
  · rw [if_neg hpre]

/-! ### Directories along a path -/

/-- The places that a path goes through from a directory. -/
def places : List Str → List Str → List (List Str)
  | dir, [] => [dir]
  | dir, c :: cs => dir :: places (PurePath.step dir c) cs

/-- `path.mkdir(parents=True, exist_ok=True)` of a path that may hold `..`, from a directory that is
there: where the path leads.  The directories that were made stay when one cannot be made. -/
def mkdirAlong : FileTree → List Str → List Str → Option (List Str) × FileTree
  | t, dir, [] => (some dir, t)
  | t, dir, c :: cs =>
    if c = dotdot then mkdirAlong t dir.dropLast cs
    else
      match t.mkdirs (dir ++ [c]) with
      | none => (none, t)
      | some t => mkdirAlong t (dir ++ [c]) cs

theorem mem_places_self (dir : List Str) (cs : List Str) : dir ∈ places dir cs := by
  cases cs <;> exact List.mem_cons_self

theorem node_dropLast (h : t.node p = some .dir) : t.node p.dropLast = some .dir := by
  rcases List.eq_nil_or_concat p with rfl | ⟨r, c, rfl⟩
  · exact h
  · rw [List.concat_eq_append, List.dropLast_concat]
    refine t.node_parent r c ?_
    rw [List.concat_eq_append] at h
    rw [h]
    exact Option.some_ne_none _

theorem node_mkdirs_child {t' : FileTree} {c : Str} (hp : t.node p = some .dir)
    (h : t.mkdirs (p ++ [c]) = some t') (q : List Str) :
    t'.node q = if q = p ++ [c] then some .dir else t.node q := by
  rw [node_mkdirs h]
  by_cases hq : q = p ++ [c]
  · rw [if_pos hq, if_pos (hq ▸ List.prefix_rfl)]
  · rw [if_neg hq]
    by_cases hpre : q <+: p ++ [c]
    · rw [if_pos hpre]
      have hqp : q <+: p := by
        rcases List.prefix_concat_iff.mp hpre with heq | hqp
        · exact absurd heq hq
        · exact hqp
      by_cases heq : q = p
      · rw [heq, hp]
      · rw [FileTree.node_of_prefix hqp heq (by rw [hp]; exact Option.some_ne_none _)]
    · rw [if_neg hpre]

theorem exists_mkdirs_child {c : Str} (hp : t.node p = some .dir) (hc : t.file? (p ++ [c]) = none) :
    ∃ t', t.mkdirs (p ++ [c]) = some t' := by
  rw [mkdirs, dif_neg]
  · exact ⟨_, rfl⟩
  · rintro ⟨q, hq, hsome⟩
    rcases List.prefix_concat_iff.mp ((List.mem_inits _ _).mp hq) with rfl | hqp
    · rw [hc] at hsome
      cases hsome
    · have hdir : t.node q = some .dir := by
        by_cases heq : q = p
        · rw [heq, hp]
        · exact node_of_prefix hqp heq (by rw [hp]; exact Option.some_ne_none _)
      rw [file?, hdir] at hsome
      cases hsome

theorem file?_mkdirAlong (cs : List Str) (q : List Str) :
    (t.mkdirAlong p cs).2.file? q = t.file? q := by
  induction cs generalizing t p with
  | nil => rfl
  | cons c cs ih =>
    unfold mkdirAlong
    by_cases hc : c = dotdot
    · rw [if_pos hc]
      exact ih
    · rw [if_neg hc]
      cases hdirs : t.mkdirs (p ++ [c]) with
      | none => rfl
      | some t' => exact ih.trans (file?_mkdirs hdirs q)

theorem mkdirAlong_of_free {cs : List Str} (hp : t.node p = some .dir)
    (h : ∀ r ∈ places p cs, t.file? r = none) :
    ∃ t', t.mkdirAlong p cs = (some (cs.foldl PurePath.step p), t') ∧
      ∀ q, t'.node q = if q ∈ places p cs then some .dir else t.node q := by
  induction cs generalizing t p with
  | nil =>
    refine ⟨t, rfl, fun q => ?_⟩
    by_cases hq : q ∈ places p []
    · rw [if_pos hq, List.mem_singleton.mp hq, hp]
    · rw [if_neg hq]
  | cons c cs ih =>
    have hrest : ∀ r ∈ places (PurePath.step p c) cs, t.file? r = none := fun r hr =>
      h r (List.mem_cons_of_mem _ hr)
    have hstep : ∀ {t₁ : FileTree}, (∀ q, t₁.node q =
        if q = PurePath.step p c then some .dir else t.node q) →
        ∃ t', t₁.mkdirAlong (PurePath.step p c) cs =
          (some (cs.foldl PurePath.step (PurePath.step p c)), t') ∧
            ∀ q, t'.node q = if q ∈ places p (c :: cs) then some .dir else t.node q := by
      intro t₁ hnode
      have hfree : ∀ r ∈ places (PurePath.step p c) cs, t₁.file? r = none := by
        intro r hr
        rw [file?, hnode]
        by_cases heq : r = PurePath.step p c
        · rw [if_pos heq]
        · rw [if_neg heq]
          exact hrest r hr
      obtain ⟨t', heq, hall⟩ := ih (by rw [hnode, if_pos rfl]) hfree
      refine ⟨t', heq, fun q => ?_⟩
      rw [hall, hnode]
      by_cases hq : q ∈ places (PurePath.step p c) cs
      · have hmem : q ∈ places p (c :: cs) := List.mem_cons_of_mem _ hq
        rw [if_pos hq, if_pos hmem]
      · have hne : q ≠ PurePath.step p c := fun heq => hq (heq ▸ mem_places_self _ _)
        rw [if_neg hq, if_neg hne]
        by_cases hqp : q = p
        · rw [hqp, hp, if_pos (mem_places_self p (c :: cs))]
        · rw [if_neg]
          intro hmem
          rcases List.mem_cons.mp hmem with heq | hmem
          · exact hqp heq
          · exact hq hmem
    unfold mkdirAlong
    by_cases hc : c = dotdot
    · have hplace : PurePath.step p c = p.dropLast := if_pos hc
      rw [if_pos hc, List.foldl_cons, ← hplace]
      refine hstep fun q => ?_
      by_cases hq : q = PurePath.step p c
      · rw [if_pos hq, hq, hplace, node_dropLast hp]
      · rw [if_neg hq]
    · have hplace : PurePath.step p c = p ++ [c] := if_neg hc
      have hchild : t.file? (p ++ [c]) = none := by
        rw [← hplace]
        exact hrest _ (mem_places_self _ _)
      obtain ⟨t₁, hdirs⟩ := exists_mkdirs_child hp hchild
      rw [if_neg hc, hdirs, List.foldl_cons, ← hplace]
      exact hstep fun q => by rw [hplace, node_mkdirs_child hp hdirs]

theorem free_of_mkdirAlong {cs : List Str} {d : List Str} {t' : FileTree}
    (hp : t.node p = some .dir) (h : t.mkdirAlong p cs = (some d, t')) :
    ∀ r ∈ places p cs, t.file? r = none := by
  have hself : t.file? p = none := by
    rw [file?, hp]
  induction cs generalizing t p with
  | nil =>
    intro r hr
    rw [List.mem_singleton.mp hr]
    exact hself
  | cons c cs ih =>
    unfold mkdirAlong at h
    intro r hr
    rcases List.mem_cons.mp hr with rfl | hr
    · exact hself
    by_cases hc : c = dotdot
    · rw [if_pos hc] at h
      have hdir := node_dropLast hp
      rw [PurePath.step, if_pos hc] at hr
      exact ih hdir h (by rw [file?, hdir]) r hr
    · rw [if_neg hc] at h
      cases hdirs : t.mkdirs (p ++ [c]) with
      | none =>
        rw [hdirs] at h
        cases h
      | some t₁ =>
        rw [hdirs] at h
        have hdir : t₁.node (p ++ [c]) = some .dir := by
          rw [node_mkdirs_child hp hdirs, if_pos rfl]
        rw [PurePath.step, if_neg hc] at hr
        rw [← file?_mkdirs hdirs r]
        exact ih hdir h (by rw [file?, hdir]) r hr

/-! ### Removing -/

variable (t p) in
/-- `path.unlink()` -/
def unlink : Option FileTree :=
  match h : t.node p with
  | some (.file _) =>
    some {
      node := Function.update t.node p none
      node_nil := by
        have hne : p ≠ [] := by
          rintro rfl
          rw [t.node_nil] at h
          cases h
        rw [Function.update_of_ne hne.symm]
        exact t.node_nil
      node_parent := by
        intro dir name hnode
        by_cases hp : dir ++ [name] = p
        · rw [hp, Function.update_self] at hnode
          exact absurd rfl hnode
        · rw [Function.update_of_ne hp] at hnode
          have hdir := t.node_parent dir name hnode
          have hne : dir ≠ p := by
            rintro rfl
            rw [hdir] at h
            cases h
          rw [Function.update_of_ne hne, hdir] }
  | _ => none

theorem unlink_of_file {f : File} (hf : t.node p = some (.file f)) :
    ∃ t', t.unlink p = some t' ∧ ∀ q, t'.node q = if q = p then none else t.node q := by
  unfold unlink
  split
  · exact ⟨_, rfl, fun q => Function.update_apply _ _ _ _⟩
  · next h => exact absurd hf (h f)

theorem unlink_of_not_file (hf : t.file? p = none) : t.unlink p = none := by
  unfold unlink
  split
  · next f h => exact absurd h (file?_eq_none.mp hf f)
  · rfl

variable (t p) in
/-- `shutil.rmtree(path)`; the root is left. -/
def rmtree : FileTree where
  node q := if p ≠ [] ∧ p <+: q then none else t.node q
  node_nil := by
    rw [if_neg]
    · exact t.node_nil
    · rintro ⟨hne, hp⟩
      exact hne (List.prefix_nil.mp hp)
  node_parent := by
    intro dir name hnode
    by_cases h : p ≠ [] ∧ p <+: dir ++ [name]
    · rw [if_pos h] at hnode
      exact absurd rfl hnode
    · rw [if_neg h] at hnode
      rw [if_neg fun hdir => h ⟨hdir.1, hdir.2.trans (List.prefix_append _ _)⟩]
      exact t.node_parent dir name hnode

theorem node_rmtree (q : List Str) :
    (t.rmtree p).node q = if p ≠ [] ∧ p <+: q then none else t.node q := rfl

/-! ### Copies -/

variable (t p q) in
/-- Where a copy of `p` to `q` is put: in `q`, where that is a directory. -/
def copyTarget : List Str :=
  if t.node q = some .dir then q ++ [p.getLast?.getD []] else q

variable (t p q) in
/-- `shutil.copy2(p, q)` -/
def copy2 : Option FileTree :=
  (t.file? p).bind fun f => t.write (t.copyTarget p q) f

theorem copy2_eq_some {t' : FileTree} :
    t.copy2 p q = some t' ↔ ∃ f, t.node p = some (.file f) ∧
      t.write (t.copyTarget p q) f = some t' := by
  unfold copy2
  rw [Option.bind_eq_some_iff]
  simp only [file?_eq_some]

/-! ### Moving, and changing the files -/

variable (t p q) in
/-- `p.rename(q)` of a file: what is at `q` is replaced, unless it is a directory. -/
def rename : Option FileTree :=
  (t.file? p).bind fun f =>
    if p = q then some t else (t.unlink p).bind fun t => t.write q f

theorem rename_of_takes {f : File} (hf : t.node p = some (.file f)) (hq : t.Takes q) :
    ∃ t', t.rename p q = some t' ∧ ∀ r, t'.node r =
      if r = q then some (.file f) else if r = p then none else t.node r := by
  unfold rename
  rw [file?_eq_some.mpr hf, Option.bind_some]
  by_cases hpq : p = q
  · rw [if_pos hpq]
    refine ⟨t, rfl, fun r => ?_⟩
    by_cases hr : r = q
    · rw [if_pos hr, hr, ← hpq, hf]
    · rw [if_neg hr, if_neg (hpq ▸ hr)]
  · obtain ⟨t₁, hunlink, hnode⟩ := unlink_of_file hf
    have htakes : t₁.Takes q := by
      refine ⟨hq.1, ?_, ?_⟩
      · have hne : q.dropLast ≠ p := by
          intro heq
          have hdir := hq.2.1
          rw [heq, hf] at hdir
          cases hdir
        rw [hnode, if_neg hne]
        exact hq.2.1
      · rw [hnode, if_neg (Ne.symm hpq)]
        exact hq.2.2
    obtain ⟨t', hwrite⟩ := exists_write f htakes
    rw [if_neg hpq, hunlink, Option.bind_some]
    refine ⟨t', hwrite, fun r => ?_⟩
    rw [node_write hwrite, hnode]

theorem rename_of_dir (hq : t.node q = some .dir) : t.rename p q = none := by
  unfold rename
  cases hf : t.file? p with
  | none => rfl
  | some f =>
    rw [file?_eq_some] at hf
    have hpq : p ≠ q := by
      rintro rfl
      rw [hf] at hq
      cases hq
    obtain ⟨t₁, hunlink, hnode⟩ := unlink_of_file hf
    rw [Option.bind_some, if_neg hpq, hunlink, Option.bind_some, write, dif_neg]
    intro htakes
    exact htakes.2.2 (by rw [hnode, if_neg (Ne.symm hpq), hq])

variable (t) in
def mapFiles (g : List Str → File → File) : FileTree where
  node q :=
    match t.node q with
    | some (.file f) => some (.file (g q f))
    | some .dir => some .dir
    | none => none
  node_nil := by rw [t.node_nil]
  node_parent dir name h := by
    have hdir : t.node dir = some .dir := by
      refine t.node_parent dir name fun hnone => h ?_
      rw [hnone]
    rw [hdir]

theorem file?_mapFiles (g : List Str → File → File) (q : List Str) :
    (t.mapFiles g).file? q = (t.file? q).map (g q) := by
  unfold file? mapFiles
  dsimp only
  rcases t.node q with _ | (f | _) <;> rfl

theorem node_mapFiles_eq_dir {g : List Str → File → File} :
    (t.mapFiles g).node q = some .dir ↔ t.node q = some .dir := by
  unfold mapFiles
  dsimp only
  rcases t.node q with _ | (f | _) <;> simp

end FileTree

end Py
