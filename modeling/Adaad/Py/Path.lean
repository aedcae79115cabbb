import Adaad.Py.Text

/-!
# Paths

`pathlib.PurePosixPath`: `parent`, `name` and `/`, and what `resolve` makes of the components `..`.

A path drops the components `.` and the empty ones when it is read, so that only `..` is left for
`resolve`.  There are no symbolic links here: a path is resolved by its components alone, from the
working directory where it is relative.
-/

namespace Py

def slash : Nat := 47

/-- `"."` -/
def dot : Str := [46]

/-- `".."` -/
def dotdot : Str := [46, 46]

/-- The components of a path that is read from `s`. -/
def components (s : Str) : List Str :=
  let r := cutAll (· == slash) s
  (r.1 ++ [r.2]).filter fun c => c ≠ [] && c ≠ dot

/-- What a path holds of a component. -/
structure IsComponent (c : Str) : Prop where
  ne_nil : c ≠ []
  ne_dot : c ≠ dot
  not_slash : slash ∉ c

theorem not_brk_of_mem_cutAll (brk : Nat → Bool) (s : Str) :
    (∀ l ∈ (cutAll brk s).1, ∀ c ∈ l, brk c = false) ∧ ∀ c ∈ (cutAll brk s).2, brk c = false := by
  induction s with
  | nil => simp [cutAll]
  | cons c s ih =>
    obtain ⟨ih₁, ih₂⟩ := ih
    rw [cutAll]
    by_cases hc : brk c = true
    · rw [if_pos hc]
      exact ⟨List.forall_mem_cons.mpr ⟨by simp, ih₁⟩, ih₂⟩
    · rw [if_neg hc]
      rw [Bool.not_eq_true] at hc
      rcases hr : cutAll brk s with ⟨_ | ⟨l, ls⟩, t⟩ <;> rw [hr] at ih₁ ih₂
      · exact ⟨by simp, List.forall_mem_cons.mpr ⟨hc, ih₂⟩⟩
      · obtain ⟨hl, hls⟩ := List.forall_mem_cons.mp ih₁
        exact ⟨List.forall_mem_cons.mpr ⟨List.forall_mem_cons.mpr ⟨hc, hl⟩, hls⟩, ih₂⟩

theorem isComponent_of_mem_components {s c : Str} (h : c ∈ components s) : IsComponent c := by
  rw [components, List.mem_filter, List.mem_append, List.mem_singleton] at h
  obtain ⟨hmem, hc⟩ := h
  simp only [Bool.and_eq_true, decide_eq_true_eq] at hc
  refine ⟨hc.1, hc.2, fun hslash => ?_⟩
  obtain ⟨hcut, hrest⟩ := not_brk_of_mem_cutAll (· == slash) s
  rcases hmem with hmem | rfl
  · exact absurd (hcut c hmem slash hslash) (by simp)
  · exact absurd (hrest slash hslash) (by simp)

theorem components_of_not_slash {s : Str} (h : slash ∉ s) :
    components s = if s = [] ∨ s = dot then [] else [s] := by
  have hcut : ∀ t : Str, slash ∉ t → cutAll (· == slash) t = ([], t) := by
    intro t ht
    induction t with
    | nil => rfl
    | cons c t ih =>
      rw [List.mem_cons, not_or] at ht
      rw [cutAll, ih ht.2, if_neg]
      simpa using Ne.symm ht.1
  rw [components, hcut s h]
  by_cases hs : s = [] ∨ s = dot
  · rw [if_pos hs]
    rcases hs with rfl | rfl <;> rfl
  · rw [if_neg hs]
    rw [not_or] at hs
    simp [hs]

/-- `pathlib.PurePosixPath` -/
structure PurePath where
  /-- The path starts at the root. -/
  absolute : Bool
  parts : List Str
  wf : ∀ c ∈ parts, IsComponent c

namespace PurePath

/-- `Path(s)` -/
def parse (s : Str) : PurePath where
  absolute := s.head? = some slash
  parts := components s
  wf _ := isComponent_of_mem_components

/-- `p.parent` -/
def parent (p : PurePath) : PurePath where
  absolute := p.absolute
  parts := p.parts.dropLast
  wf c hc := p.wf c ((List.dropLast_subset _) hc)

/-- `p.name` -/
def name (p : PurePath) : Str :=
  p.parts.getLast?.getD []

/-- `p / s` -/
def join (p : PurePath) (s : Str) : PurePath :=
  let q := parse s
  if q.absolute then q
  else
    { absolute := p.absolute
      parts := p.parts ++ q.parts
      wf := List.forall_mem_append.mpr ⟨p.wf, q.wf⟩ }

/-- The part of a name from its last dot on, where something stands before and behind it. -/
def suffixOf (name : Str) : Str :=
  let ext := (name.reverse.takeWhile (· ≠ 46)).reverse
  if name.length - ext.length ≤ 1 ∨ ext = [] then [] else 46 :: ext

/-- The components of the path below another one (`path.relative_to(p)`), where it is below. -/
def relativeTo (path : List Str) (p : PurePath) : Option (List Str) :=
  if p.absolute ∧ p.parts <+: path then some (path.drop p.parts.length) else none

/-! ### Resolution -/

def step (dir : List Str) (c : Str) : List Str :=
  if c = dotdot then dir.dropLast else dir ++ [c]

/-- `p.resolve()`, as the components below the root. -/
def resolve (cwd : List Str) (p : PurePath) : List Str :=
  p.parts.foldl step (if p.absolute then [] else cwd)

/-- What joining a text without a slash does to the resolved path. -/
def enter (dir : List Str) (s : Str) : List Str :=
  if s = [] ∨ s = dot then dir else step dir s

@[simp] theorem enter_nil (dir : List Str) : enter dir [] = dir := rfl

@[simp] theorem enter_dot (dir : List Str) : enter dir dot = dir := rfl

@[simp] theorem enter_dotdot (dir : List Str) : enter dir dotdot = dir.dropLast := rfl

theorem resolve_join (cwd : List Str) (p : PurePath) {s : Str} (hs : slash ∉ s) :
    (p.join s).resolve cwd = enter (p.resolve cwd) s := by
  have habs : (parse s).absolute = false := by
    rw [parse, decide_eq_false_iff_not]
    exact fun h => hs (List.mem_of_mem_head? h)
  rw [join, if_neg (by rw [habs]; simp)]
  show (p.parts ++ components s).foldl step (if p.absolute then [] else cwd) =
    enter (p.resolve cwd) s
  rw [List.foldl_append, components_of_not_slash hs, enter]
  by_cases h : s = [] ∨ s = dot
  · rw [if_pos h, if_pos h]
    rfl
  · rw [if_neg h, if_neg h]
    rfl

theorem isComponent_name {p : PurePath} (h : p.name ≠ []) : IsComponent p.name := by
  unfold name at h ⊢
  cases hlast : p.parts.getLast? with
  | none =>
    rw [hlast] at h
    exact absurd rfl h
  | some c => exact p.wf c (List.mem_of_mem_getLast? hlast)

theorem slash_not_mem_name (p : PurePath) : slash ∉ p.name := by
  by_cases h : p.name = []
  · simp [h]
  · exact (isComponent_name h).not_slash

theorem name_ne_dot (p : PurePath) : p.name ≠ dot := by
  by_cases h : p.name = []
  · rw [h]
    decide
  · exact (isComponent_name h).ne_dot

theorem resolve_eq (cwd : List Str) (p : PurePath) :
    p.resolve cwd = enter (p.parent.resolve cwd) p.name := by
  have hparent : p.parent.resolve cwd =
      p.parts.dropLast.foldl step (if p.absolute then [] else cwd) := rfl
  rw [hparent, resolve]
  rcases List.eq_nil_or_concat p.parts with h | ⟨cs, c, h⟩
  · have hname : p.name = [] := by rw [name, h]; rfl
    rw [hname, enter_nil, h]
    rfl
  · have hname : p.name = c := by simp [name, h]
    have hc := p.wf c (by rw [h]; simp)
    rw [hname, enter, if_neg (not_or.mpr ⟨hc.ne_nil, hc.ne_dot⟩), h, List.concat_eq_append,
      List.dropLast_concat, List.foldl_append]
    rfl

theorem enter_of_ne {dir : List Str} {s : Str} (hnil : s ≠ []) (hdot : s ≠ dot)
    (hdotdot : s ≠ dotdot) : enter dir s = dir ++ [s] := by
  rw [enter, if_neg (not_or.mpr ⟨hnil, hdot⟩), step, if_neg hdotdot]

theorem length_enter_le (dir : List Str) (s : Str) : (enter dir s).length ≤ dir.length + 1 := by
  unfold enter step
  split_ifs
  · omega
  · rw [List.length_dropLast]
    omega
  · rw [List.length_append, List.length_singleton]

/-! ### Resolved paths -/

theorem dotdot_notMem_foldl {parts start : List Str} (h : dotdot ∉ start) :
    dotdot ∉ parts.foldl step start := by
  induction parts generalizing start with
  | nil => exact h
  | cons c parts ih =>
    refine ih ?_
    unfold step
    by_cases hc : c = dotdot
    · rw [if_pos hc]
      exact fun hmem => h (List.dropLast_subset _ hmem)
    · rw [if_neg hc, List.mem_append, List.mem_singleton]
      rintro (hmem | hmem)
      · exact h hmem
      · exact hc hmem.symm

theorem foldl_step_of_notMem {parts start : List Str} (h : dotdot ∉ parts) :
    parts.foldl step start = start ++ parts := by
  induction parts generalizing start with
  | nil => exact (List.append_nil start).symm
  | cons c parts ih =>
    rw [List.mem_cons, not_or] at h
    rw [List.foldl_cons, step, if_neg (Ne.symm h.1), ih h.2, List.append_assoc,
      List.singleton_append]

theorem relativeTo_eq_some {path rel : List Str} {p : PurePath} :
    relativeTo path p = some rel ↔ p.absolute = true ∧ path = p.parts ++ rel := by
  unfold relativeTo
  by_cases h : p.absolute = true ∧ p.parts <+: path
  · rw [if_pos h, Option.some.injEq]
    obtain ⟨habs, rest, rfl⟩ := h
    rw [List.drop_left, List.append_cancel_left_eq, and_iff_right habs, eq_comm]
  · rw [if_neg h]
    refine iff_of_false (by simp) ?_
    rintro ⟨habs, rfl⟩
    exact h ⟨habs, List.prefix_append _ _⟩

theorem resolve_of_relativeTo {cwd rel : List Str} {p q : PurePath}
    (h : relativeTo (q.resolve cwd) p = some rel) (hq : q.absolute = true) :
    p.resolve cwd = p.parts := by
  obtain ⟨habs, hpath⟩ := relativeTo_eq_some.mp h
  have hnot : dotdot ∉ q.resolve cwd := by
    unfold resolve
    rw [if_pos hq]
    exact dotdot_notMem_foldl List.not_mem_nil
  rw [hpath, List.mem_append, not_or] at hnot
  unfold resolve
  rw [if_pos habs, foldl_step_of_notMem hnot.1, List.nil_append]

def Below (dir file : List Str) : Prop :=
  dir <+: file ∧ dir ≠ file

theorem length_lt_of_below {dir file : List Str} (h : Below dir file) :
    dir.length < file.length := by
  refine lt_of_le_of_ne h.1.length_le fun heq => h.2 ?_
  exact h.1.eq_of_length heq

end PurePath

end Py
