import Adaad.Py.Json.Equiv.RoundTrip
import Adaad.Tools.MutationFs

/-!
# Mutations of the DNA of an agent

`runtime/tools/mutation_guard.py`: `apply_dna_mutation` applies operations to the object in the
`dna.json` of an agent and replaces the file.  `_apply_ops` is `applyOps`.

The directory of the agent is taken as it resolves: an id in which a name is followed by `..` is the
id without both.
-/

namespace Adaad.MutationGuard

open Py
open MutationFs (Agent applyOps emptyDocument isText opKey)

inductive GuardFault where
  | permissionError (message : Str)
  | fileNotFoundError (message : Str)
  | ops (f : MutationFs.Fault)
  | raised (e : Exc)
  | osError
  deriving DecidableEq, Repr

structure DnaMutation where
  agentId : Str
  parentLineage : Str
  childLineage : Str
  checksum : Str
  applied : Nat
  skipped : Nat
  deriving DecidableEq, Repr

def dnaFile : Str := str "dna.json"

/-- `_ensure_agent_dir`, where `agentsRoot` is `AGENTS_ROOT` and the working directory. -/
def ensureAgentDir (agentsRoot : Agent) (agentId : Str) : Except GuardFault (List Str) :=
  let real := agentsRoot.locate agentId
  let root := agentsRoot.dir
  if real = root ∨ (root ≠ [] ∧ root <+: real) then .ok real
  else .error (.permissionError (str "Mutation outside app/agents blocked."))

/-- `open(path, "w")` and what is written: the file keeps its permissions. -/
def overwrite (t : FileTree) (path : List Str) (b : Bytes) : Option FileTree :=
  let f := (t.file? path).getD { content := [] }
  if f.writable then t.write path { f with content := b } else none

/-- `_atomic_write_bytes` -/
def atomicWriteBytes (t : FileTree) (dir : List Str) (b : Bytes) : Option Unit × FileTree :=
  let tmp := dir ++ [dnaFile ++ str ".tmp"]
  match overwrite t tmp b with
  | none => (none, t)
  | some t =>
    match t.rename tmp (dir ++ [dnaFile]) with
    | none => (none, t)
    | some t => (some (), t)

variable {P : Platform} (u : Letters P)

/-- `o.get("op") in ("set", "add", "replace")`; `none` is an `AttributeError`. -/
def isNonDestructive : P.Obj → Option Bool
  | .dict o =>
    let kind := (get o opKey).getD .none
    some (isText kind (str "set") || isText kind (str "add") || isText kind (str "replace"))
  | _ => none

/-- What is done where there is no `dna.json`. -/
def bootstrap (t : FileTree) (dir : List Str) (agentId : Str) (ops : List P.Obj) :
    Except GuardFault Unit × FileTree :=
  match ops.mapM isNonDestructive with
  | none => (.error (.raised .attributeError), t)
  | some kinds =>
    if kinds.any (!·) then
      (.error (.fileNotFoundError (str "Agent " ++ agentId ++ str " DNA not found.")), t)
    else
      match t.mkdirs dir with
      | none => (.error .osError, t)
      | some t =>
        match overwrite t (dir ++ [dnaFile]) emptyDocument with
        | none => (.error .osError, t)
        | some t => (.ok (), t)

/-- `validate_he65_subset` -/
def validateHe65Subset : P.Obj → Except GuardFault Unit
  | .dict _ => .ok ()
  | _ => .error (.raised (.valueError (str "dna.json must be an object.")))

/-- The bytes that take the place of the old ones, and how many operations were applied and
skipped. -/
def mutatedBytes (old : Bytes) (ops : List P.Obj) : Except GuardFault (Bytes × Nat × Nat) :=
  match decode old with
  | none => .error (.raised .unicodeDecodeError)
  | some text =>
    match loads P text with
    | none => .error (.raised .jsonDecodeError)
    | some obj =>
      match applyOps u obj ops with
      | .error f => .error (.ops f)
      | .ok (obj, applied, skipped) =>
        match validateHe65Subset obj with
        | .error e => .error e
        | .ok _ =>
          match dumpsSorted P .compact obj with
          | none => .error (.raised .typeError)
          | some s =>
            match encode s with
            | none => .error (.raised .unicodeEncodeError)
            | some b => .ok (b, applied, skipped)

/-- What is done once `dna.json` is there. -/
def mutate (t : FileTree) (dir : List Str) (agentId : Str) (ops : List P.Obj) :
    Except GuardFault DnaMutation × FileTree :=
  match t.file? (dir ++ [dnaFile]) with
  | none => (.error .osError, t)
  | some f =>
    match mutatedBytes u f.content ops with
    | .error e => (.error e, t)
    | .ok (b, applied, skipped) =>
      match atomicWriteBytes t dir b with
      | (none, t) => (.error .osError, t)
      | (some _, t) =>
        (.ok {
          agentId := agentId
          parentLineage := P.sha256 f.content
          childLineage := P.sha256 b
          checksum := P.sha256 b
          applied := applied
          skipped := skipped }, t)

/-- `apply_dna_mutation` -/
def applyDnaMutation (agentsRoot : Agent) (t : FileTree) (agentId : Str) (ops : List P.Obj) :
    Except GuardFault DnaMutation × FileTree :=
  match ensureAgentDir agentsRoot agentId with
  | .error e => (.error e, t)
  | .ok dir =>
    if t.pathExists (dir ++ [dnaFile]) then mutate u t dir agentId ops
    else
      match bootstrap t dir agentId ops with
      | (.error e, t) => (.error e, t)
      | (.ok _, t) => mutate u t dir agentId ops

def dnaPath (agentsRoot : Agent) (agentId : Str) : List Str :=
  agentsRoot.locate agentId ++ [dnaFile]

/-- The bytes that the object of an agent is first read from. -/
def oldBytes (agentsRoot : Agent) (t : FileTree) (agentId : Str) : Bytes :=
  ((t.file? (dnaPath agentsRoot agentId)).map File.content).getD emptyDocument

/-- A call that raises leaves `dna.json` as it was, and one that returns leaves the canonical JSON of
the old object with all operations applied in order, and returns the digests of the old and the new
bytes. -/
def Atomic (agentsRoot : Agent) (t : FileTree) (agentId : Str) (ops : List P.Obj) : Prop :=
  match applyDnaMutation u agentsRoot t agentId ops with
  | (.error _, t') => t'.file? (dnaPath agentsRoot agentId) = t.file? (dnaPath agentsRoot agentId)
  | (.ok r, t') =>
    ∃ text obj ms s b, decode (oldBytes agentsRoot t agentId) = some text ∧
      loads P text = some obj ∧ applyOps u obj ops = .ok (.dict ms, r.applied, r.skipped) ∧
      dumpsSorted P .compact (.dict ms) = some s ∧ encode s = some b ∧
      (t'.file? (dnaPath agentsRoot agentId)).map File.content = some b ∧
      r.parentLineage = P.sha256 (oldBytes agentsRoot t agentId) ∧ r.childLineage = P.sha256 b ∧
      r.checksum = P.sha256 b

/-! ### The empty object that is written first -/

/-- The call writes an empty object before it applies anything: there is no `dna.json`, all
operations add, set or replace, and the directory can be made. -/
structure Bootstraps (agentsRoot : Agent) (t : FileTree) (agentId : Str) (ops : List P.Obj) :
    Prop where
  inside : (ensureAgentDir agentsRoot agentId).isOk = true
  absent : t.pathExists (dnaPath agentsRoot agentId) = false
  nonDestructive : ∀ o ∈ ops, isNonDestructive o = some true
  directory : (t.mkdirs (agentsRoot.locate agentId)).isSome = true

/-- The operations apply to an empty object, and what they make of it can be written. -/
structure Applicable (agentsRoot : Agent) (t : FileTree) (agentId : Str) (ops : List P.Obj) :
    Prop where
  applies : ∃ ms applied skipped s b, applyOps u (.dict []) ops = .ok (.dict ms, applied, skipped) ∧
    dumpsSorted P .compact (.dict ms) = some s ∧ encode s = some b
  temporary : t.node (agentsRoot.locate agentId ++ [dnaFile ++ str ".tmp"]) ≠ some .dir
  writable : ∀ f, t.file? (agentsRoot.locate agentId ++ [dnaFile ++ str ".tmp"]) = some f →
    f.writable = true

section

variable {u} {t : FileTree} {dir : List Str} {agentsRoot : Agent} {agentId : Str} {ops : List P.Obj}
  {f : File} {old b : Bytes} {applied skipped : Nat}

theorem mutatedBytes_eq_ok :
    mutatedBytes u old ops = .ok (b, applied, skipped) ↔
      ∃ text obj ms s, decode old = some text ∧ loads P text = some obj ∧
        applyOps u obj ops = .ok (.dict ms, applied, skipped) ∧
        dumpsSorted P .compact (.dict ms) = some s ∧ encode s = some b := by
  constructor
  · intro h
    unfold mutatedBytes at h
    cases hdecode : decode old with
    | none => simp [hdecode] at h
    | some text =>
      cases hloads : loads P text with
      | none => simp [hdecode, hloads] at h
      | some obj =>
        cases hops : applyOps u obj ops with
        | error e => simp [hdecode, hloads, hops] at h
        | ok r =>
          obtain ⟨obj', applied', skipped'⟩ := r
          cases obj' with
          | dict ms =>
            cases hdumps : dumpsSorted P .compact (.dict ms) with
            | none => simp [hdecode, hloads, hops, validateHe65Subset, hdumps] at h
            | some s =>
              cases hencode : encode s with
              | none => simp [hdecode, hloads, hops, validateHe65Subset, hdumps, hencode] at h
              | some b' =>
                simp only [hdecode, hloads, hops, validateHe65Subset, hdumps, hencode,
                  Except.ok.injEq, Prod.mk.injEq] at h
                obtain ⟨rfl, rfl, rfl⟩ := h
                exact ⟨text, obj, ms, s, rfl, hloads, hops, hdumps, hencode⟩
          | _ => simp [hdecode, hloads, hops, validateHe65Subset] at h
  · rintro ⟨text, obj, ms, s, hdecode, hloads, hops, hdumps, hencode⟩
    unfold mutatedBytes
    simp [hdecode, hloads, hops, validateHe65Subset, hdumps, hencode]

/-! ### The write -/

theorem temporary_ne (dir : List Str) : dir ++ [dnaFile ++ str ".tmp"] ≠ dir ++ [dnaFile] := by
  intro h
  have := List.singleton_inj.mp (List.append_cancel_left h)
  exact absurd (congrArg List.length this) (by decide)

theorem takes_beside {name name' : Str} (h : t.node (dir ++ [name]) ≠ none)
    (hdir : t.node (dir ++ [name']) ≠ some .dir) : t.Takes (dir ++ [name']) :=
  ⟨by simp, by rw [List.dropLast_concat]; exact t.node_parent dir name h, hdir⟩

def TemporaryFree (t : FileTree) (dir : List Str) : Prop :=
  t.node (dir ++ [dnaFile ++ str ".tmp"]) ≠ some .dir ∧
    ∀ f, t.file? (dir ++ [dnaFile ++ str ".tmp"]) = some f → f.writable = true

theorem exists_atomicWriteBytes (hf : t.file? (dir ++ [dnaFile]) = some f)
    (hfree : TemporaryFree t dir) (b : Bytes) :
    ∃ t', atomicWriteBytes t dir b = (some (), t') ∧
      (t'.file? (dir ++ [dnaFile])).map File.content = some b := by
  have hnode := FileTree.file?_eq_some.mp hf
  have hwritable : ((t.file? (dir ++ [dnaFile ++ str ".tmp"])).getD { content := [] }).writable =
      true := by
    cases htmp : t.file? (dir ++ [dnaFile ++ str ".tmp"]) with
    | none => rfl
    | some g => exact hfree.2 g htmp
  obtain ⟨t₁, ht₁⟩ := FileTree.exists_write
    { ((t.file? (dir ++ [dnaFile ++ str ".tmp"])).getD { content := [] }) with content := b }
    (takes_beside (by rw [hnode]; exact Option.some_ne_none _) hfree.1)
  have hnode₁ := FileTree.node_write ht₁
  have hp₁ : t₁.node (dir ++ [dnaFile]) = some (.file f) := by
    rw [hnode₁, if_neg (temporary_ne dir).symm, hnode]
  have hthere : t₁.node (dir ++ [dnaFile]) ≠ none := by
    rw [hp₁]
    exact Option.some_ne_none _
  obtain ⟨t₂, ht₂, hnode₂⟩ := FileTree.rename_of_takes ((hnode₁ _).trans (if_pos rfl))
    (takes_beside hthere (by rw [hp₁]; simp))
  refine ⟨t₂, ?_, ?_⟩
  · unfold atomicWriteBytes overwrite
    dsimp only
    rw [if_pos hwritable, ht₁]
    dsimp only
    rw [ht₂]
  · rw [FileTree.file?_eq_some.mpr ((hnode₂ _).trans (if_pos rfl))]
    rfl

theorem atomicWriteBytes_eq_none (hfree : ¬TemporaryFree t dir) (b : Bytes) :
    atomicWriteBytes t dir b = (none, t) := by
  unfold atomicWriteBytes overwrite
  dsimp only
  unfold TemporaryFree at hfree
  by_cases hwritable : ((t.file? (dir ++ [dnaFile ++ str ".tmp"])).getD
      { content := [] }).writable = true
  · have hdir : t.node (dir ++ [dnaFile ++ str ".tmp"]) = some .dir := by
      by_contra hnot
      refine hfree ⟨hnot, fun g hg => ?_⟩
      rwa [hg] at hwritable
    rw [if_pos hwritable, FileTree.write, dif_neg fun h => h.2.2 hdir]
  · rw [if_neg hwritable]

variable (u agentId ops) in
theorem mutate_spec (hf : t.file? (dir ++ [dnaFile]) = some f) :
    ((∃ e, mutate u t dir agentId ops = (.error e, t)) ∧
      ¬((∃ b applied skipped, mutatedBytes u f.content ops = .ok (b, applied, skipped)) ∧
        TemporaryFree t dir)) ∨
    ∃ b applied skipped t', mutatedBytes u f.content ops = .ok (b, applied, skipped) ∧
      TemporaryFree t dir ∧ (t'.file? (dir ++ [dnaFile])).map File.content = some b ∧
      mutate u t dir agentId ops = (.ok ⟨agentId, P.sha256 f.content, P.sha256 b, P.sha256 b,
        applied, skipped⟩, t') := by
  unfold mutate
  rw [hf]
  dsimp only
  cases hbytes : mutatedBytes u f.content ops with
  | error e =>
    refine .inl ⟨⟨e, rfl⟩, ?_⟩
    rintro ⟨⟨b, applied, skipped, h⟩, -⟩
    cases h
  | ok r =>
    obtain ⟨b, applied, skipped⟩ := r
    dsimp only
    by_cases hfree : TemporaryFree t dir
    · obtain ⟨t', hwrite, hcontent⟩ := exists_atomicWriteBytes hf hfree b
      exact .inr ⟨b, applied, skipped, t', rfl, hfree, hcontent, by rw [hwrite]⟩
    · refine .inl ⟨⟨.osError, ?_⟩, fun h => hfree h.2⟩
      rw [atomicWriteBytes_eq_none hfree]

/-! ### The call -/

theorem ensureAgentDir_eq_ok {dir : List Str} (h : ensureAgentDir agentsRoot agentId = .ok dir) :
    dir = agentsRoot.locate agentId := by
  unfold ensureAgentDir at h
  dsimp only at h
  split_ifs at h
  exact (Except.ok.inj h).symm

theorem atomic_of_mutate {t₀ : FileTree} (hf : t.file? (dnaPath agentsRoot agentId) = some f)
    (hold : oldBytes agentsRoot t₀ agentId = f.content)
    (hcall : applyDnaMutation u agentsRoot t₀ agentId ops =
      mutate u t (agentsRoot.locate agentId) agentId ops) :
    ((∃ b applied skipped, mutatedBytes u f.content ops = .ok (b, applied, skipped)) ∧
      TemporaryFree t (agentsRoot.locate agentId) ∧ Atomic u agentsRoot t₀ agentId ops) ∨
    (¬((∃ b applied skipped, mutatedBytes u f.content ops = .ok (b, applied, skipped)) ∧
        TemporaryFree t (agentsRoot.locate agentId)) ∧
      (Atomic u agentsRoot t₀ agentId ops ↔
        t₀.file? (dnaPath agentsRoot agentId) = some f)) := by
  unfold Atomic
  rw [hcall]
  rcases mutate_spec u agentId ops hf with
    ⟨⟨e, heq⟩, hnot⟩ | ⟨b, applied, skipped, t', hbytes, hfree, hcontent, heq⟩
  · refine .inr ⟨hnot, ?_⟩
    rw [heq]
    dsimp only
    rw [hf]
    exact eq_comm
  · refine .inl ⟨⟨b, applied, skipped, hbytes⟩, hfree, ?_⟩
    rw [heq]
    dsimp only
    obtain ⟨text, obj, ms, s, hdecode, hloads, hops, hdumps, hencode⟩ :=
      mutatedBytes_eq_ok.mp hbytes
    rw [hold]
    exact ⟨text, obj, ms, s, b, hdecode, hloads, hops, hdumps, hencode, hcontent, rfl, rfl, rfl⟩

theorem loads_emptyDocument (P : Platform) :
    ∃ text, decode emptyDocument = some text ∧ loads P text = some (.dict []) :=
  ⟨str "\x7b\x7d", rfl, loads_dumps (P := P) .compact (.dict [])⟩

theorem mutatedBytes_emptyDocument :
    mutatedBytes u emptyDocument ops = .ok (b, applied, skipped) ↔
      ∃ ms s, applyOps u (.dict []) ops = .ok (.dict ms, applied, skipped) ∧
        dumpsSorted P .compact (.dict ms) = some s ∧ encode s = some b := by
  obtain ⟨text, hdecode, hloads⟩ := loads_emptyDocument P
  rw [mutatedBytes_eq_ok]
  constructor
  · rintro ⟨text', obj, ms, s, hdecode', hloads', h⟩
    obtain rfl := Option.some.inj (hdecode.symm.trans hdecode')
    obtain rfl := Option.some.inj (hloads.symm.trans hloads')
    exact ⟨ms, s, h⟩
  · rintro ⟨ms, s, h⟩
    exact ⟨text, .dict [], ms, s, hdecode, hloads, h⟩

theorem mapM_isNonDestructive_eq_some {kinds : List Bool}
    (h : ops.mapM isNonDestructive = some kinds) :
    (∀ o ∈ ops, isNonDestructive o = some true) ↔ kinds.any (!·) = false := by
  induction ops generalizing kinds with
  | nil =>
    obtain rfl := Option.some.inj h
    exact iff_of_true (fun o ho => absurd ho List.not_mem_nil) rfl
  | cons o ops ih =>
    rw [List.mapM_cons] at h
    obtain ⟨kind, hkind, h⟩ := Option.bind_eq_some_iff.mp h
    obtain ⟨rest, hrest, h⟩ := Option.bind_eq_some_iff.mp h
    obtain rfl := Option.some.inj h
    rw [List.forall_mem_cons, ih hrest, hkind, List.any_cons, Bool.or_eq_false_iff]
    exact and_congr_left' (by cases kind <;> decide)

theorem mapM_isNonDestructive (h : ∀ o ∈ ops, isNonDestructive o = some true) :
    ops.mapM isNonDestructive = some (ops.map fun _ => true) := by
  induction ops with
  | nil => rfl
  | cons o ops ih =>
    rw [List.forall_mem_cons] at h
    rw [List.mapM_cons, h.1, ih h.2]
    rfl

variable (ops) in
theorem bootstrap_spec (hinside : (ensureAgentDir agentsRoot agentId).isOk = true)
    (habsent : t.pathExists (dnaPath agentsRoot agentId) = false) :
    (¬Bootstraps agentsRoot t agentId ops ∧
      ∃ e t', bootstrap t (agentsRoot.locate agentId) agentId ops = (.error e, t') ∧
        ∀ p, t'.file? p = t.file? p) ∨
    (Bootstraps agentsRoot t agentId ops ∧
      ∃ t', bootstrap t (agentsRoot.locate agentId) agentId ops = (.ok (), t') ∧
        t'.file? (dnaPath agentsRoot agentId) = some { content := emptyDocument } ∧
        (TemporaryFree t' (agentsRoot.locate agentId) ↔
          TemporaryFree t (agentsRoot.locate agentId))) := by
  unfold bootstrap
  cases hkinds : ops.mapM isNonDestructive with
  | none =>
    refine .inl ⟨fun h => ?_, _, t, rfl, fun _ => rfl⟩
    rw [mapM_isNonDestructive h.nonDestructive] at hkinds
    cases hkinds
  | some kinds =>
    dsimp only
    by_cases hany : kinds.any (!·) = true
    · rw [if_pos hany]
      refine .inl ⟨fun h => ?_, _, t, rfl, fun _ => rfl⟩
      rw [(mapM_isNonDestructive_eq_some hkinds).mp h.nonDestructive] at hany
      cases hany
    · rw [if_neg hany]
      have hops := (mapM_isNonDestructive_eq_some hkinds).mpr (Bool.eq_false_iff.mpr hany)
      cases hmk : t.mkdirs (agentsRoot.locate agentId) with
      | none =>
        refine .inl ⟨fun h => ?_, _, t, rfl, fun _ => rfl⟩
        have := h.directory
        rw [hmk] at this
        cases this
      | some t₁ =>
        dsimp only
        -- The names below the directory are as before.
        have hbelow : ∀ name, t₁.node (agentsRoot.locate agentId ++ [name]) =
            t.node (agentsRoot.locate agentId ++ [name]) := by
          intro name
          rw [FileTree.node_mkdirs hmk, if_neg]
          intro hpre
          have := hpre.length_le
          rw [List.length_append, List.length_singleton] at this
          omega
        have hnone : t₁.node (dnaPath agentsRoot agentId) = none := by
          rw [FileTree.pathExists, Option.isSome_eq_false_iff, Option.isNone_iff_eq_none] at habsent
          exact (hbelow dnaFile).trans habsent
        have hnofile : t₁.file? (dnaPath agentsRoot agentId) = none := by
          rw [FileTree.file?_eq_none, hnone]
          exact fun f => (Option.some_ne_none _).symm
        have htakes : t₁.Takes (dnaPath agentsRoot agentId) := by
          refine ⟨by simp [dnaPath], ?_, by rw [hnone]; simp⟩
          rw [dnaPath, List.dropLast_concat, FileTree.node_mkdirs hmk, if_pos List.prefix_rfl]
        obtain ⟨t₂, ht₂⟩ := FileTree.exists_write { content := emptyDocument } htakes
        have hnode₂ := FileTree.node_write ht₂
        refine .inr ⟨⟨hinside, habsent, hops, by rw [hmk]; rfl⟩, t₂, ?_, ?_, ?_⟩
        · unfold overwrite
          rw [← dnaPath, hnofile]
          dsimp only [Option.getD_none]
          rw [if_pos rfl, ht₂]
        · exact FileTree.file?_eq_some.mpr ((hnode₂ _).trans (if_pos rfl))
        · have htmp : t₂.node (agentsRoot.locate agentId ++ [dnaFile ++ str ".tmp"]) =
              t.node (agentsRoot.locate agentId ++ [dnaFile ++ str ".tmp"]) := by
            rw [hnode₂, if_neg (show _ ≠ dnaPath agentsRoot agentId from temporary_ne _), hbelow]
          unfold TemporaryFree FileTree.file?
          rw [htmp]

/-- A call is atomic exactly when, if it writes an empty object first, its operations apply to this
and the result can be written. -/
theorem dna_atomic_iff (u : Letters P) (agentsRoot : Agent) (t : FileTree) (agentId : Str)
    (ops : List P.Obj) :
    Atomic u agentsRoot t agentId ops ↔
      (Bootstraps agentsRoot t agentId ops → Applicable u agentsRoot t agentId ops) := by
  cases hdir : ensureAgentDir agentsRoot agentId with
  | error e =>
    refine iff_of_true ?_ fun h => ?_
    · unfold Atomic applyDnaMutation
      rw [hdir]
    · have := h.inside
      rw [hdir] at this
      cases this
  | ok dir =>
    obtain rfl := ensureAgentDir_eq_ok hdir
    by_cases hthere : t.pathExists (dnaPath agentsRoot agentId) = true
    · refine iff_of_true ?_ fun h => absurd hthere (by rw [h.absent]; decide)
      have hcall : applyDnaMutation u agentsRoot t agentId ops =
          mutate u t (agentsRoot.locate agentId) agentId ops := by
        unfold applyDnaMutation
        rw [hdir]
        exact if_pos hthere
      cases hf : t.file? (dnaPath agentsRoot agentId) with
      | none =>
        unfold Atomic
        rw [hcall]
        unfold mutate
        rw [← dnaPath, hf]
        exact hf
      | some f =>
        have hold : oldBytes agentsRoot t agentId = f.content := by
          unfold oldBytes
          rw [hf]
          rfl
        rcases atomic_of_mutate hf hold hcall with ⟨-, -, h⟩ | ⟨-, h⟩
        · exact h
        · exact h.mpr hf
    · have habsent := Bool.eq_false_iff.mpr hthere
      have hfile : t.file? (dnaPath agentsRoot agentId) = none := by
        rw [FileTree.pathExists, Option.isSome_eq_false_iff, Option.isNone_iff_eq_none] at habsent
        rw [FileTree.file?_eq_none, habsent]
        exact fun f => (Option.some_ne_none _).symm
      rcases bootstrap_spec ops (by rw [hdir]; rfl) habsent with
        ⟨hnot, e, t', heq, hsame⟩ | ⟨hboot, t', heq, hf, hfree⟩
      · refine iff_of_true ?_ fun h => absurd h hnot
        unfold Atomic applyDnaMutation
        rw [hdir]
        dsimp only
        rw [← dnaPath, if_neg hthere, heq]
        exact hsame _
      · have hcall : applyDnaMutation u agentsRoot t agentId ops =
            mutate u t' (agentsRoot.locate agentId) agentId ops := by
          unfold applyDnaMutation
          rw [hdir]
          dsimp only
          rw [← dnaPath, if_neg hthere, heq]
        have hold : oldBytes agentsRoot t agentId = emptyDocument := by
          unfold oldBytes
          rw [hfile]
          rfl
        have happlicable : Applicable u agentsRoot t agentId ops ↔
            (∃ b applied skipped, mutatedBytes u emptyDocument ops = .ok (b, applied, skipped)) ∧
              TemporaryFree t' (agentsRoot.locate agentId) := by
          rw [hfree]
          constructor
          · rintro ⟨⟨ms, applied, skipped, s, b, h⟩, hdir, hwritable⟩
            exact ⟨⟨b, applied, skipped, mutatedBytes_emptyDocument.mpr ⟨ms, s, h⟩⟩, hdir, hwritable⟩
          · rintro ⟨⟨b, applied, skipped, h⟩, hdir, hwritable⟩
            obtain ⟨ms, s, h⟩ := mutatedBytes_emptyDocument.mp h
            exact ⟨⟨ms, applied, skipped, s, b, h⟩, hdir, hwritable⟩
        rw [happlicable]
        rcases atomic_of_mutate hf hold hcall with ⟨hbytes, htmp, h⟩ | ⟨hnot, h⟩
        · exact iff_of_true h fun _ => ⟨hbytes, htmp⟩
        · refine iff_of_false (fun hatomic => ?_) fun h => hnot (h hboot)
          rw [hfile] at h
          cases h.mp hatomic

end

/-! ### An agent without a file -/

/-- `app/agents` below the working directory `/srv`. -/
def agentsRoot : Agent where
  root := PurePath.parse (str "app/agents")
  cwd := [str "srv"]

/-- Replaces a value below one that is not there. -/
def replaceBelow : reference.Obj :=
  .dict [(.str opKey, .str (str "replace")), (.str MutationFs.pathKey, .str (str "/traits/primary")),
    (.str MutationFs.valueKey, .str (str "adaptive"))]

/-- The call raises a `KeyError`, and the empty object that it wrote stays. -/
theorem not_atomic_newAgent :
    (applyDnaMutation referenceLetters agentsRoot FileTree.empty (str "alpha") [replaceBelow]).2.file?
        (dnaPath agentsRoot (str "alpha")) = some { content := emptyDocument } ∧
      ¬Atomic referenceLetters agentsRoot FileTree.empty (str "alpha") [replaceBelow] := by
  have hfile : (applyDnaMutation referenceLetters agentsRoot FileTree.empty (str "alpha")
      [replaceBelow]).2.file? (dnaPath agentsRoot (str "alpha")) =
        some { content := emptyDocument } := by
    decide +kernel
  have herror : (applyDnaMutation referenceLetters agentsRoot FileTree.empty (str "alpha")
      [replaceBelow]).1.isOk = false := by
    decide +kernel
  refine ⟨hfile, fun h => ?_⟩
  unfold Atomic at h
  generalize applyDnaMutation referenceLetters agentsRoot FileTree.empty (str "alpha")
    [replaceBelow] = r at hfile herror h
  obtain ⟨e | result, t⟩ := r
  · dsimp only at h hfile
    rw [hfile] at h
    revert h
    decide +kernel
  · cases herror

end Adaad.MutationGuard
