import Adaad.Py.Path
import Adaad.Py.Reference
import Adaad.Py.TextFile

/-!
# Tenants

`runtime/tenancy.py`: where the ledger of a tenant lies, and which entries belong to it.

A tenant context is the mapping that callers pass; the empty mapping stands for `None` as well,
which the code does not tell apart from it.
-/

namespace Adaad.Tenancy

open Py

variable (P : Platform)

def tenantIdKey : Str := str "tenant_id"
def workspaceIdKey : Str := str "workspace_id"
def payloadKey : Str := str "payload"

/-- The characters of `_SCOPE_PATTERN`: letters, digits and `._:-`. -/
def isScopeChar (c : Nat) : Bool :=
  (97 ≤ c && c ≤ 122) || (65 ≤ c && c ≤ 90) || isDigit c || c == 46 || c == 95 || c == 58 ||
    c == 45

/-- `_SCOPE_PATTERN.fullmatch(s)` -/
def isScope (s : Str) : Bool :=
  s ≠ [] && s.all isScopeChar

/-- `_normalize_scope_value` -/
def normalizeScopeValue (value : Option P.Obj) (fieldName : Str) : Except Exc Str :=
  let normalized := strip (strOr P value)
  if isScope normalized then .ok normalized
  else .error (.valueError (str "invalid_" ++ fieldName))

/-- `normalize_tenant_scope` -/
def normalizeTenantScope (tenantContext : Members P.Float) : Except Exc (Str × Str) := do
  let tenantId ← normalizeScopeValue P (get tenantContext tenantIdKey) tenantIdKey
  let workspaceId ← normalizeScopeValue P (get tenantContext workspaceIdKey) workspaceIdKey
  return (tenantId, workspaceId)

/-- `"tenants"` -/
def tenantsName : Str := str "tenants"

/-- `tenant_partition_path` -/
def tenantPartitionPath (basePath : PurePath) (tenantContext : Members P.Float) :
    Except Exc PurePath :=
  if tenantContext = [] then .ok basePath
  else do
    let (tenantId, workspaceId) ← normalizeTenantScope P tenantContext
    return (((basePath.parent.join tenantsName).join tenantId).join workspaceId).join basePath.name

/-- `entry.get("payload")` where it is a mapping, and the empty one otherwise. -/
def payloadOf (entry : Members P.Float) : Members P.Float :=
  ((get entry payloadKey).bind Value.members?).getD []

end Adaad.Tenancy

/-!
## Tenant isolation

Every tenant is to have a file of its own, below the `tenants` directory.  `_SCOPE_PATTERN` admits
the identifiers `.` and `..`, which a path does not keep as components of their own: the first is
dropped, the second cancels the component before it.

`isolated_iff` says that these are all that goes wrong, apart from a base path that itself ends in
`..`.  The proof is a count: an ordinary tenant has four components below the parent of the base
path, or three if that has no name, and no other identifiers have as many.
-/

namespace Adaad.Tenancy

open Py PurePath

variable {P : Platform}

/-! ### Accepted identifiers -/

theorem isScope_iff {s : Str} : isScope s = true ↔ s ≠ [] ∧ ∀ c ∈ s, isScopeChar c = true := by
  simp [isScope]

theorem isScope_dot : isScope dot = true := by decide

theorem isScope_dotdot : isScope dotdot = true := by decide

theorem isSpace_of_isScopeChar {c : Nat} (h : isScopeChar c = true) : isSpace c = false := by
  simp only [isScopeChar, isDigit, Bool.or_eq_true, Bool.and_eq_true, decide_eq_true_eq,
    beq_iff_eq] at h
  simp only [isSpace, Bool.or_eq_false_iff, Bool.and_eq_false_iff, decide_eq_false_iff_not,
    beq_eq_false_iff_ne]
  omega

theorem strip_of_isScope {s : Str} (h : isScope s = true) : strip s = s := by
  have hall := (isScope_iff.mp h).2
  apply stripBy_eq_self
  · exact fun c hc => isSpace_of_isScopeChar (hall c (List.mem_of_mem_head? hc))
  · exact fun c hc => isSpace_of_isScopeChar (hall c (List.mem_of_mem_getLast? hc))

theorem slash_not_mem_of_isScope {s : Str} (h : isScope s = true) : slash ∉ s := by
  intro hslash
  exact absurd ((isScope_iff.mp h).2 slash hslash) (by decide)

theorem normalizeScopeValue_eq_ok {v : Option P.Obj} {field s : Str}
    (h : normalizeScopeValue P v field = .ok s) : isScope s = true := by
  unfold normalizeScopeValue at h
  simp only at h
  split_ifs at h with hs
  · obtain rfl := Except.ok.inj h
    exact hs

theorem normalizeTenantScope_eq_ok {ctx : Members P.Float} {t w : Str}
    (h : normalizeTenantScope P ctx = .ok (t, w)) : isScope t = true ∧ isScope w = true := by
  obtain ⟨t', ht, h⟩ := bind_eq_ok.mp h
  obtain ⟨w', hw, h⟩ := bind_eq_ok.mp h
  obtain ⟨rfl, rfl⟩ := Prod.mk.inj (Except.ok.inj h)
  exact ⟨normalizeScopeValue_eq_ok ht, normalizeScopeValue_eq_ok hw⟩

variable (P) in
/-- The context `{"tenant_id": t, "workspace_id": w}`. -/
def context (t w : Str) : Members P.Float :=
  [(.str tenantIdKey, .str t), (.str workspaceIdKey, .str w)]

theorem normalizeTenantScope_context {t w : Str} (ht : isScope t = true) (hw : isScope w = true) :
    normalizeTenantScope P (context P t w) = .ok (t, w) := by
  have hvalue : ∀ {s field : Str}, isScope s = true →
      normalizeScopeValue P (some (.str s)) field = .ok s := by
    intro s field hs
    rw [normalizeScopeValue, strOr_str, strip_of_isScope hs, if_pos hs]
  have hne : tenantIdKey ≠ workspaceIdKey := by decide
  rw [normalizeTenantScope, context, get_cons_self, get_cons_of_ne hne, get_cons_self, hvalue ht,
    hvalue hw]
  rfl

/-! ### Where the files lie -/

/-- The file of a tenant, when the parent of the base path is at `dir`. -/
def fileIn (dir : List Str) (t w name : Str) : List Str :=
  enter (enter (enter (dir ++ [tenantsName]) t) w) name

theorem resolve_tenants (cwd : List Str) (base : PurePath) :
    (base.parent.join tenantsName).resolve cwd = base.parent.resolve cwd ++ [tenantsName] := by
  rw [resolve_join cwd _ (by decide)]
  exact enter_of_ne (by decide) (by decide) (by decide)

theorem resolve_tenantPartitionPath (cwd : List Str) (base : PurePath) {ctx : Members P.Float}
    {t w : Str} (h : normalizeTenantScope P ctx = .ok (t, w)) :
    ∃ file, tenantPartitionPath P base ctx = .ok file ∧
      file.resolve cwd = fileIn (base.parent.resolve cwd) t w base.name := by
  obtain ⟨ht, hw⟩ := normalizeTenantScope_eq_ok h
  have hne : ctx ≠ [] := by
    -- without identifiers the context is not accepted
    rintro rfl
    exact absurd ht (by
      obtain ⟨t', ht', h⟩ := bind_eq_ok.mp h
      obtain ⟨w', -, h⟩ := bind_eq_ok.mp h
      obtain ⟨rfl, rfl⟩ := Prod.mk.inj (Except.ok.inj h)
      exact nomatch ht')
  refine ⟨_, by rw [tenantPartitionPath, if_neg hne, h]; rfl, ?_⟩
  rw [resolve_join cwd _ base.slash_not_mem_name, resolve_join cwd _ (slash_not_mem_of_isScope hw),
    resolve_join cwd _ (slash_not_mem_of_isScope ht), resolve_tenants, fileIn]

variable (P) in
/-- The tenant has a file below the `tenants` directory that is neither the base path's nor that of
another tenant. -/
def Isolated (cwd : List Str) (base : PurePath) (ctx : Members P.Float) (t w : Str) : Prop :=
  ∃ file, tenantPartitionPath P base ctx = .ok file ∧
    Below ((base.parent.join tenantsName).resolve cwd) (file.resolve cwd) ∧
    file.resolve cwd ≠ base.resolve cwd ∧
    ∀ ctx' t' w' file', normalizeTenantScope P ctx' = .ok (t', w') → (t', w') ≠ (t, w) →
      tenantPartitionPath P base ctx' = .ok file' → file'.resolve cwd ≠ file.resolve cwd

/-- The same, of the directories alone. -/
structure IsolatedIn (dir : List Str) (t w name : Str) : Prop where
  below : Below (dir ++ [tenantsName]) (fileIn dir t w name)
  ne_base : fileIn dir t w name ≠ enter dir name
  ne_other : ∀ t' w', isScope t' = true → isScope w' = true → (t', w') ≠ (t, w) →
    fileIn dir t' w' name ≠ fileIn dir t w name

theorem isolated_iff_isolatedIn (cwd : List Str) (base : PurePath) {ctx : Members P.Float}
    {t w : Str} (h : normalizeTenantScope P ctx = .ok (t, w)) :
    Isolated P cwd base ctx t w ↔ IsolatedIn (base.parent.resolve cwd) t w base.name := by
  obtain ⟨file, hfile, hresolve⟩ := resolve_tenantPartitionPath cwd base h
  rw [Isolated, hfile]
  simp only [Except.ok.injEq, exists_eq_left', hresolve, resolve_tenants, base.resolve_eq cwd]
  constructor
  · rintro ⟨hbelow, hbase, hother⟩
    refine ⟨hbelow, hbase, fun t' w' ht' hw' hne => ?_⟩
    have hctx := normalizeTenantScope_context (P := P) ht' hw'
    obtain ⟨file', hfile', hresolve'⟩ := resolve_tenantPartitionPath cwd base hctx
    rw [← hresolve']
    exact hother _ t' w' file' hctx hne hfile'
  · rintro ⟨hbelow, hbase, hother⟩
    refine ⟨hbelow, hbase, fun ctx' t' w' file' hctx hne hfile' => ?_⟩
    obtain ⟨ht', hw'⟩ := normalizeTenantScope_eq_ok hctx
    obtain ⟨file'', hfile'', hresolve'⟩ := resolve_tenantPartitionPath cwd base hctx
    obtain rfl := Except.ok.inj (hfile'.symm.trans hfile'')
    rw [hresolve']
    exact hother t' w' ht' hw' hne

/-! ### Ordinary identifiers -/

/-- Neither `.` nor `..`. -/
def Ordinary (s : Str) : Prop :=
  s ≠ dot ∧ s ≠ dotdot

instance (s : Str) : Decidable (Ordinary s) :=
  inferInstanceAs (Decidable (s ≠ dot ∧ s ≠ dotdot))

theorem enter_ordinary {dir : List Str} {s : Str} (hs : isScope s = true) (h : Ordinary s) :
    enter dir s = dir ++ [s] :=
  enter_of_ne (isScope_iff.mp hs).1 h.1 h.2

theorem length_enter_of_not_ordinary (dir : List Str) {s : Str} (h : ¬ Ordinary s) :
    (enter dir s).length ≤ dir.length := by
  rw [Ordinary, not_and_or, not_not, not_not] at h
  rcases h with rfl | rfl
  · exact Nat.le_refl _
  · rw [enter_dotdot, List.length_dropLast]
    exact Nat.sub_le _ _

theorem enter_name_injective {dir dir' : List Str} {name : Str} (hdot : name ≠ dot)
    (hdotdot : name ≠ dotdot) (h : enter dir name = enter dir' name) : dir = dir' := by
  by_cases hnil : name = []
  · subst hnil
    exact h
  · rw [enter_of_ne hnil hdot hdotdot, enter_of_ne hnil hdot hdotdot] at h
    exact List.append_cancel_right h

variable {dir : List Str} {t w name : Str}

theorem isolatedIn_of_ordinary (ht : isScope t = true) (hw : isScope w = true) (hto : Ordinary t)
    (hwo : Ordinary w) (hdot : name ≠ dot) (hdotdot : name ≠ dotdot) :
    IsolatedIn dir t w name := by
  have hfile : fileIn dir t w name = enter (dir ++ [tenantsName] ++ [t] ++ [w]) name := by
    rw [fileIn, enter_ordinary ht hto, enter_ordinary hw hwo]
  have hprefix : dir ++ [tenantsName] ++ [t] ++ [w] <+: fileIn dir t w name := by
    rw [hfile]
    by_cases hnil : name = []
    · rw [hnil]
      exact List.prefix_rfl
    · rw [enter_of_ne hnil hdot hdotdot]
      exact List.prefix_append _ _
  have hlength := hprefix.length_le
  simp only [List.length_append, List.length_singleton] at hlength
  refine ⟨⟨?_, fun heq => ?_⟩, fun heq => ?_, fun t' w' ht' hw' hne heq => hne ?_⟩
  · refine List.IsPrefix.trans ?_ hprefix
    rw [List.append_assoc (dir ++ [tenantsName])]
    exact List.prefix_append _ _
  · rw [← heq, List.length_append, List.length_singleton] at hlength
    omega
  · -- the base path has at most one component below its parent
    have := length_enter_le dir name
    rw [← heq] at this
    omega
  · rw [hfile, fileIn] at heq
    have hdirs := enter_name_injective hdot hdotdot heq
    have hlengths := congrArg List.length hdirs
    have h₁ := length_enter_le (dir ++ [tenantsName]) t'
    have h₂ := length_enter_le (enter (dir ++ [tenantsName]) t') w'
    simp only [List.length_append, List.length_singleton] at hlengths h₁
    -- an identifier that is not ordinary loses a component
    have hto' : Ordinary t' := by
      by_contra h
      have := length_enter_of_not_ordinary (dir ++ [tenantsName]) h
      rw [List.length_append, List.length_singleton] at this
      omega
    have hwo' : Ordinary w' := by
      by_contra h
      have := length_enter_of_not_ordinary (enter (dir ++ [tenantsName]) t') h
      omega
    rw [enter_ordinary ht' hto', enter_ordinary hw' hwo'] at hdirs
    obtain ⟨hdirs, hlast⟩ := List.append_inj' hdirs rfl
    obtain ⟨-, hfirst⟩ := List.append_inj' hdirs rfl
    rw [List.singleton_inj.mp hfirst, List.singleton_inj.mp hlast]

/-! ### The others -/

theorem not_isolatedIn_of_eq {t' w' : Str} (ht' : isScope t' = true) (hw' : isScope w' = true)
    (hne : (t', w') ≠ (t, w))
    (heq : enter (enter (dir ++ [tenantsName]) t') w' = enter (enter (dir ++ [tenantsName]) t) w) :
    ¬ IsolatedIn dir t w name := fun h =>
  h.ne_other t' w' ht' hw' hne (congrArg (fun d => enter d name) heq)

theorem not_isolatedIn_of_not_ordinary (ht : isScope t = true) (hw : isScope w = true)
    (hdot : name ≠ dot) (h : ¬ (Ordinary t ∧ Ordinary w)) : ¬ IsolatedIn dir t w name := by
  by_cases hdots : t = dot ∧ w = dot
  · obtain ⟨rfl, rfl⟩ := hdots
    -- `tenants/a/..` is `tenants`
    have ha : enter (enter (dir ++ [tenantsName]) [97]) dotdot = dir ++ [tenantsName] := by
      rw [enter_dotdot, enter_ordinary (by decide) (by decide), List.dropLast_concat]
    exact not_isolatedIn_of_eq (by decide) isScope_dotdot (by decide) ha
  by_cases htdot : t = dot
  · subst htdot
    have hne : w ≠ dot := fun h => hdots ⟨rfl, h⟩
    exact not_isolatedIn_of_eq hw isScope_dot (fun h => hne (Prod.mk.inj h).1) rfl
  by_cases hwdot : w = dot
  · subst hwdot
    exact not_isolatedIn_of_eq isScope_dot ht (fun h => htdot (Prod.mk.inj h).1.symm) rfl
  have hne : (dot, dot) ≠ (t, w) := fun h => htdot (Prod.mk.inj h).1.symm
  by_cases htt : t = dotdot
  · subst htt
    have hparent : enter (dir ++ [tenantsName]) dotdot = dir := by
      rw [enter_dotdot, List.dropLast_concat]
    by_cases hww : w = dotdot
    · subst hww
      -- two levels up: there is no room for the `tenants` directory
      intro hiso
      have hlt := length_lt_of_below hiso.below
      have hle := length_enter_le dir.dropLast name
      rw [fileIn, hparent, enter_dotdot, List.length_append, List.length_singleton] at hlt
      rw [List.length_dropLast] at hle
      omega
    · have henter : enter dir w = dir ++ [w] := enter_ordinary hw ⟨hwdot, hww⟩
      by_cases hwt : w = tenantsName
      · apply not_isolatedIn_of_eq isScope_dot isScope_dot hne
        rw [hparent, henter, hwt]
        rfl
      · intro hiso
        have hlt := length_lt_of_below hiso.below
        have hprefix := hiso.below.1
        rw [fileIn, hparent, henter] at hlt hprefix
        by_cases hname : name = [] ∨ name = dotdot
        · have hle : (enter (dir ++ [w]) name).length ≤ (dir ++ [w]).length := by
            rcases hname with rfl | rfl
            · exact Nat.le_refl _
            · exact length_enter_of_not_ordinary _ (by simp [Ordinary])
          rw [List.length_append, List.length_singleton] at hlt hle
          omega
        · rw [not_or] at hname
          rw [enter_of_ne hname.1 hdot hname.2, List.append_assoc,
            List.prefix_append_right_inj] at hprefix
          exact hwt (List.cons_prefix_cons.mp hprefix).1.symm
  · have hww : w = dotdot := by
      by_contra hww
      exact h ⟨⟨htdot, htt⟩, hwdot, hww⟩
    subst hww
    apply not_isolatedIn_of_eq isScope_dot isScope_dot hne
    rw [enter_ordinary ht ⟨htdot, htt⟩, enter_dotdot, List.dropLast_concat]
    rfl

theorem not_isolatedIn_dotdot (hw : isScope w = true) (ht : isScope t = true) (hwo : Ordinary w) :
    ¬ IsolatedIn dir t w dotdot := by
  intro h
  have hw' : isScope (w ++ [97]) = true := by
    obtain ⟨hnil, hall⟩ := isScope_iff.mp hw
    refine isScope_iff.mpr ⟨by simp, List.forall_mem_append.mpr ⟨hall, ?_⟩⟩
    simp only [List.forall_mem_singleton]
    decide
  have hwo' : Ordinary (w ++ [97]) := by
    constructor <;> intro heq <;> have hlast := congrArg List.getLast? heq <;>
      simp [dot, dotdot] at hlast
  apply h.ne_other t (w ++ [97]) ht hw'
  · intro heq
    simpa using (Prod.mk.inj heq).2
  · rw [fileIn, fileIn, enter_ordinary hw hwo, enter_ordinary hw' hwo', enter_dotdot, enter_dotdot,
      List.dropLast_concat, List.dropLast_concat]

/-- A tenant is isolated exactly when neither identifier is `.` or `..` and the base path does not
end in `..`. -/
theorem isolated_iff (cwd : List Str) (base : PurePath) {ctx : Members P.Float}
    (h : normalizeTenantScope P ctx = .ok (t, w)) :
    Isolated P cwd base ctx t w ↔ Ordinary t ∧ Ordinary w ∧ base.name ≠ dotdot := by
  obtain ⟨ht, hw⟩ := normalizeTenantScope_eq_ok h
  rw [isolated_iff_isolatedIn cwd base h]
  constructor
  · intro hiso
    have hordinary : Ordinary t ∧ Ordinary w := by
      by_contra hnot
      exact not_isolatedIn_of_not_ordinary ht hw base.name_ne_dot hnot hiso
    refine ⟨hordinary.1, hordinary.2, fun hname => ?_⟩
    rw [hname] at hiso
    exact not_isolatedIn_dotdot hw ht hordinary.2 hiso
  · rintro ⟨hto, hwo, hname⟩
    exact isolatedIn_of_ordinary ht hw hto hwo base.name_ne_dot hname

/-- The tenant `acme` with the workspace `main`. -/
theorem isolated_acme :
    Isolated reference [] (parse (str "ledger/lineage.jsonl"))
      (context reference (str "acme") (str "main")) (str "acme") (str "main") := by
  have hctx : normalizeTenantScope reference (context reference (str "acme") (str "main")) =
      .ok (str "acme", str "main") := normalizeTenantScope_context (by decide) (by decide)
  exact (isolated_iff [] _ hctx).mpr ⟨by decide, by decide, by decide⟩

/-- The identifiers `..` and `keys` lead out of the `tenants` directory. -/
theorem not_isolated : ¬ ∀ (cwd : List Str) (base : PurePath) (ctx : Members reference.Float)
    (t w : Str), normalizeTenantScope reference ctx = .ok (t, w) →
    Isolated reference cwd base ctx t w := by
  intro h
  have hctx : normalizeTenantScope reference (context reference dotdot (str "keys")) =
      .ok (dotdot, str "keys") := normalizeTenantScope_context (by decide) (by decide)
  obtain ⟨file, hfile, hbelow, -⟩ := h [] (parse (str "ledger/lineage.jsonl")) _ _ _ hctx
  rw [tenantPartitionPath, if_neg (by simp [context]), hctx] at hfile
  obtain rfl := Except.ok.inj hfile
  exact absurd hbelow.1 (by decide)

end Adaad.Tenancy
