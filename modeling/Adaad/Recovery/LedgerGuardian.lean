import Adaad.Py.Assoc
import Adaad.Py.Json.Equiv.Sort
import Adaad.Run
import Mathlib.Data.Prod.Lex

/-!
# Snapshots of the ledgers

`SnapshotManager` of `runtime/recovery/ledger_guardian.py`: snapshots are made in a staging
directory that is renamed, and numbered by a counter that is taken from the index when the manager
starts.

The files `snapshots.json` and `metadata.json` are modelled by what is read from them.  A step of a
creation that raises is a parameter (`Fault`); directories that are to be removed are.
-/

namespace Adaad.LedgerGuardian

open Py Run

structure SnapshotMetadata where
  snapshotId : Str
  timestamp : Str
  fileCount : Nat
  totalBytes : Nat
  files : List (Str × Str)
  epochId : Str
  creationSequence : Int

/-- A directory in `snapshot_dir`, with the sequence that its `metadata.json` holds. -/
structure SnapshotDir where
  name : Str
  isComplete : Bool
  sequence : Option Int
  mtime : Int
  files : List Str

structure SnapshotManager where
  /-- In the order in which they were made. -/
  dirs : List SnapshotDir
  /-- `snapshots.json`, unless it is missing or cannot be read -/
  snapshotsJson : Option (List (Str × SnapshotMetadata))
  metadata : List (Str × SnapshotMetadata)
  nextCreationSequence : Int
  maxSnapshots : Int

/-- What raises. -/
inductive Fault where
  | provider
  | mkdir
  /-- After this many sources. -/
  | copy (done : Nat)
  | metadataFile
  | marker
  | rename
  | journal
  | isoNow
  /-- The first or the second save of the index, which may be cut off. -/
  | save (first torn : Bool)
  | log
  deriving DecidableEq

/-- The arguments of `create_snapshot_set`, and what it is given on the way. -/
structure Creation where
  sources : List (Str × Bytes)
  epochId : Str
  generatedIds : List Str
  hashFile : Bytes → Str
  timestamp : Str
  mtime : Int
  fault : Option Fault

/-- The steps before the directory is renamed. -/
def Fault.early : Fault → Bool
  | .provider | .mkdir | .copy _ | .metadataFile | .marker | .rename => true
  | .journal | .isoNow | .save _ _ | .log => false

namespace SnapshotManager

variable (m : SnapshotManager) (c : Creation)

/-- `shutil.rmtree(snapshot_dir / name, ignore_errors=True)` -/
def rmtree (name : Str) : SnapshotManager :=
  { m with dirs := m.dirs.filter (·.name ≠ name) }

/-- `_reserve_snapshot_id` -/
def reserveSnapshotId : Option Str :=
  (c.generatedIds.take 32).find? fun id =>
    id ∉ Assoc.keys m.metadata ∧ ∀ d ∈ m.dirs, d.name ≠ id ∧ d.name ≠ id ++ str ".tmp"

/-- `sorted(self._metadata.values(), key=lambda m: m.creation_sequence, reverse=True)` -/
def listSnapshots : List SnapshotMetadata :=
  (m.metadata.map Prod.snd).insertionSort fun a b => b.creationSequence ≤ a.creationSequence

/-- `snapshots[self.max_snapshots :]` -/
def oldSnapshots : List SnapshotMetadata :=
  m.listSnapshots.drop
    (if 0 ≤ m.maxSnapshots then m.maxSnapshots
      else m.listSnapshots.length + m.maxSnapshots).toNat

/-- `_prune_old_snapshots` before it saves -/
def pruned : SnapshotManager :=
  m.oldSnapshots.foldl (fun m old =>
    { m.rmtree old.snapshotId with metadata := Assoc.erase m.metadata old.snapshotId }) m

/-- `_save_metadata` -/
def save : SnapshotManager :=
  { m with snapshotsJson := some m.metadata }

def failedSave (torn : Bool) : SnapshotManager :=
  { m with snapshotsJson := if torn then none else m.snapshotsJson }

/-- The staging directory when it is renamed, or when a step before that raises. -/
def staging (id : Str) : SnapshotDir where
  name := id ++ str ".tmp"
  isComplete := c.fault.all fun f => f = .rename ∨ ¬f.early
  sequence := some m.nextCreationSequence
  mtime := c.mtime
  files := match c.fault with
    | some (.copy n) => (c.sources.map Prod.fst).take n
    | _ => c.sources.map Prod.fst

def metadataOf (id : Str) : SnapshotMetadata where
  snapshotId := id
  timestamp := c.timestamp
  fileCount := c.sources.length
  totalBytes := (c.sources.map fun s => s.2.length).sum
  files := Assoc.ofItems (c.sources.map fun s => (s.1, c.hashFile s.2))
  epochId := c.epochId
  creationSequence := m.nextCreationSequence

/-- `create_snapshot_set` from where the directory has its name -/
def afterRename (id : Str) (m : SnapshotManager) : Option SnapshotMetadata × SnapshotManager :=
  if c.fault = some .journal then (none, m.rmtree (id ++ str ".tmp"))
  else
    let metadata := m.metadataOf c id
    let m := { m with nextCreationSequence := m.nextCreationSequence + 1 }
    if c.fault = some .isoNow then (none, m)
    else
      let m := { m with metadata := Assoc.set m.metadata id metadata }
      match c.fault with
      | some (.save true torn) => (none, m.failedSave torn)
      | some (.save false torn) => (none, m.save.pruned.failedSave torn)
      | some _ => (none, m.save.pruned.save)
      | none => (some metadata, m.save.pruned.save)

/-- `create_snapshot_set`; nothing is returned where it raises. -/
def createSnapshotSet : Option SnapshotMetadata × SnapshotManager :=
  if c.fault = some .provider then (none, m)
  else
    match m.reserveSnapshotId c with
    | none => (none, m)
    | some id =>
      if c.fault = some .mkdir then (none, m)
      else
        let staged := { m with dirs := m.dirs ++ [m.staging c id] }
        let m' := staged.rmtree (id ++ str ".tmp")
        if c.fault.any Fault.early then (none, m')
        else
          afterRename c id { m' with dirs := m'.dirs ++ [{ m.staging c id with name := id }] }

/-! ### Starting, and looking for the latest -/

/-- The order of `_repair_creation_sequences`. -/
def repairLe (a b : Str × SnapshotMetadata) : Bool :=
  let known (x : Str × SnapshotMetadata) := decide (0 < x.2.creationSequence)
  if known a ≠ known b then known b
  else if a.2.creationSequence ≠ b.2.creationSequence then
    a.2.creationSequence < b.2.creationSequence
  else if a.2.timestamp ≠ b.2.timestamp then strLe a.2.timestamp b.2.timestamp
  else strLe a.1 b.1

/-- `_repair_creation_sequences` -/
def repaired (metadata : List (Str × SnapshotMetadata)) : List (Str × SnapshotMetadata) :=
  (metadata.insertionSort fun a b => repairLe a b = true).zipIdx.map fun x =>
    (x.1.1, { x.1.2 with creationSequence := x.2 + 1 })

/-- A new `SnapshotManager` on the directory. -/
def restart : SnapshotManager :=
  { m with
    metadata := repaired (m.snapshotsJson.getD [])
    nextCreationSequence := (m.snapshotsJson.getD []).length + 1 }

/-- The key that the candidates are sorted by, the greatest one first. -/
def rank (d : SnapshotDir) : Int ×ₗ Int :=
  toLex (d.sequence.getD (-1), d.mtime)

def SnapshotDir.hasFile (d : SnapshotDir) (sourceName : Str) : Bool :=
  sourceName = str "metadata.json" ∨ sourceName = str "snapshot_complete" ∨ sourceName ∈ d.files

/-- `get_latest_valid_snapshot`, where `iterdir` lists the directories; the path is that of the file
in the directory. -/
def getLatestValidSnapshot (listing : List SnapshotDir) (sourceName : Str)
    (validator : SnapshotDir → Bool) : Option SnapshotDir :=
  ((listing.filter (·.isComplete)).insertionSort fun a b => rank b ≤ rank a).find? fun d =>
    SnapshotDir.hasFile d sourceName && validator d

end SnapshotManager

open SnapshotManager

/-! ### Runs -/

inductive Action where
  | create (c : Creation)
  | prune
  | restart

def step (m : SnapshotManager) : Action → SnapshotManager
  | .create c => (m.createSnapshotSet c).2
  | .prune => m.pruned.save
  | .restart => m.restart

def new (maxSnapshots : Int) : SnapshotManager := ⟨[], none, [], 1, maxSnapshots⟩

/-- A creation that raises leaves the snapshots, their list and the next sequence as they were. -/
def AllOrNothing (m : SnapshotManager) (c : Creation) : Prop :=
  (m.createSnapshotSet c).1 = none →
    (∀ sourceName validator,
      getLatestValidSnapshot (m.createSnapshotSet c).2.dirs sourceName validator =
        getLatestValidSnapshot m.dirs sourceName validator) ∧
    (m.createSnapshotSet c).2.listSnapshots = m.listSnapshots ∧
    (m.createSnapshotSet c).2.nextCreationSequence = m.nextCreationSequence

/-- No two complete directories have one sequence. -/
def Distinct (m : SnapshotManager) : Prop :=
  (m.dirs.filter (·.isComplete)).Pairwise fun a b => a.sequence ≠ b.sequence

/-- The file is that of the snapshot that was made last, of those that are left and have it. -/
def Newest (m : SnapshotManager) : Prop :=
  ∀ listing, listing.Perm m.dirs → ∀ sourceName,
    getLatestValidSnapshot listing sourceName (fun _ => true) =
      m.dirs.reverse.find? fun d => d.isComplete && SnapshotDir.hasFile d sourceName

/-- What `create_snapshot_set` has to meet to be all or nothing and to give a new sequence: it
raises before the renaming, or not at all, and then no directory has the next sequence. -/
def Clean (m : SnapshotManager) : Action → Prop
  | .create c => m.reserveSnapshotId c = none ∨ c.fault.all Fault.early = true ∧
      (c.fault = none → ∀ d ∈ m.dirs, d.sequence ≠ some m.nextCreationSequence)
  | .prune => True
  | .restart => True

/-- All directories are ranked below one that is made. -/
def InOrder (m : SnapshotManager) : Action → Prop
  | .create c => m.reserveSnapshotId c = none ∨ c.fault.any Fault.early = true ∨
      ∀ d ∈ m.dirs, rank d < toLex (m.nextCreationSequence, c.mtime)
  | .prune => True
  | .restart => True

/-! ### One call -/

variable {m : SnapshotManager} {c : Creation} {id : Str}

theorem fresh_of_reserve (h : m.reserveSnapshotId c = some id) :
    ∀ d ∈ m.dirs, d.name ≠ id ++ str ".tmp" := by
  have hfree := List.find?_some h
  exact fun d hd => ((of_decide_eq_true hfree).2 d hd).2

theorem rmtree_staging (h : m.reserveSnapshotId c = some id) :
    ({ m with dirs := m.dirs ++ [m.staging c id] } : SnapshotManager).rmtree (id ++ str ".tmp") =
      m := by
  have hfilter : (m.dirs ++ [m.staging c id]).filter (·.name ≠ id ++ str ".tmp") = m.dirs := by
    rw [List.filter_append, List.filter_eq_self.mpr fun d hd =>
      decide_eq_true (fresh_of_reserve h d hd)]
    simp [staging]
  unfold rmtree
  dsimp only
  rw [hfilter]

theorem create_cases (m : SnapshotManager) (c : Creation) :
    m.createSnapshotSet c = (none, m) ∨ ∃ id, m.reserveSnapshotId c = some id ∧
      c.fault.any Fault.early = false ∧ m.createSnapshotSet c =
        afterRename c id { m with dirs := m.dirs ++ [{ m.staging c id with name := id }] } := by
  unfold createSnapshotSet
  by_cases hprovider : c.fault = some .provider
  · exact .inl (if_pos hprovider)
  rw [if_neg hprovider]
  cases hid : m.reserveSnapshotId c with
  | none => exact .inl rfl
  | some id =>
    dsimp only
    rw [rmtree_staging hid]
    by_cases hmkdir : c.fault = some .mkdir
    · exact .inl (if_pos hmkdir)
    rw [if_neg hmkdir]
    by_cases hearly : c.fault.any Fault.early = true
    · exact .inl (if_pos hearly)
    · rw [if_neg hearly]
      exact .inr ⟨id, rfl, Bool.eq_false_of_not_eq_true hearly, rfl⟩

theorem allOrNothing_of_clean (h : Clean m (.create c)) : AllOrNothing m c := by
  intro hnone
  obtain heq | ⟨id, hid, hlate, heq⟩ := create_cases m c
  · rw [heq]
    exact ⟨fun _ _ => rfl, rfl, rfl⟩
  · obtain hreserve | ⟨hearly, -⟩ := h
    · cases hid.symm.trans hreserve
    · cases hfault : c.fault with
      | none =>
        rw [heq, afterRename, hfault, if_neg (by simp)] at hnone
        dsimp only at hnone
        rw [if_neg (by simp)] at hnone
        cases hnone
      | some f =>
        rw [hfault] at hearly hlate
        cases hearly.symm.trans hlate

theorem dirs_pruned (m : SnapshotManager) : m.pruned.dirs.Sublist m.dirs := by
  unfold pruned
  induction m.oldSnapshots generalizing m with
  | nil => exact .refl _
  | cons old olds ih => exact (ih _).trans List.filter_sublist

theorem dirs_afterRename (c : Creation) (id : Str) (m : SnapshotManager) :
    (afterRename c id m).2.dirs.Sublist m.dirs := by
  unfold afterRename
  split_ifs with hjournal hiso
  · exact List.filter_sublist
  · exact .refl _
  · dsimp only
    split
    · exact .refl _
    · exact dirs_pruned _
    · exact dirs_pruned _
    · exact dirs_pruned _

theorem pairwise_step {R : SnapshotDir → SnapshotDir → Prop} {a : Action} (h : m.dirs.Pairwise R)
    (hnew : ∀ c id, a = .create c → m.reserveSnapshotId c = some id →
      c.fault.any Fault.early = false → ∀ d ∈ m.dirs, R d { m.staging c id with name := id }) :
    (step m a).dirs.Pairwise R := by
  cases a with
  | create c =>
    unfold step
    dsimp only
    obtain heq | ⟨id, hid, hlate, heq⟩ := create_cases m c
    · rwa [heq]
    · rw [heq]
      refine List.Pairwise.sublist (dirs_afterRename c id _) ?_
      refine List.pairwise_append.mpr ⟨h, List.pairwise_singleton _ _, fun d hd d' hd' => ?_⟩
      rw [List.mem_singleton.mp hd']
      exact hnew c id rfl hid hlate d hd
  | prune => exact h.sublist (dirs_pruned m)
  | restart => exact h

/-! ### Runs -/

theorem distinct_step {a : Action} (h : m.dirs.Pairwise fun x y => x.sequence ≠ y.sequence)
    (ha : Clean m a) : (step m a).dirs.Pairwise fun x y => x.sequence ≠ y.sequence := by
  refine pairwise_step h fun c id hc hid hlate d hd => ?_
  rw [hc] at ha
  obtain hreserve | ⟨hearly, hfresh⟩ := ha
  · cases hid.symm.trans hreserve
  · refine hfresh ?_ d hd
    cases hfault : c.fault with
    | none => rfl
    | some f =>
      rw [hfault] at hearly hlate
      cases hearly.symm.trans hlate

def creation (id : Str) (mtime : Int) (fault : Option Fault) : Creation :=
  ⟨[], [], [id], fun _ => [], [], mtime, fault⟩

theorem find?_eq_some_of_greatest {α κ : Type} [LinearOrder κ] {f : α → κ} {p : α → Bool}
    {l : List α} {x : α} (hl : l.Pairwise fun a b => f b ≤ f a) (hx : x ∈ l)
    (hp : p x = true) (hmax : ∀ y ∈ l, p y = true → y ≠ x → f y < f x) :
    l.find? p = some x := by
  induction l with
  | nil => cases hx
  | cons y l ih =>
    obtain ⟨hy, hl⟩ := List.pairwise_cons.mp hl
    by_cases hyx : y = x
    · rw [hyx, List.find?_cons_of_pos hp]
    · have hmem : x ∈ l := (List.mem_cons.mp hx).resolve_left (Ne.symm hyx)
      rw [List.find?_cons_of_neg fun hpy =>
        absurd (hmax y (by simp) hpy hyx) (not_lt.mpr (hy x hmem))]
      exact ih hl hmem fun z hz => hmax z (by simp [hz])

theorem newest_of_pairwise (h : m.dirs.Pairwise fun x y => rank x < rank y) : Newest m := by
  intro listing hperm sourceName
  unfold getLatestValidSnapshot
  have hsort : ((listing.filter (·.isComplete)).insertionSort fun a b => rank b ≤ rank a).Perm
      (m.dirs.filter (·.isComplete)) := (List.perm_insertionSort _ _).trans (hperm.filter _)
  have hmem : ∀ d, d ∈ (listing.filter (·.isComplete)).insertionSort (fun a b => rank b ≤ rank a) ↔
      d ∈ m.dirs ∧ d.isComplete = true := fun d => hsort.mem_iff.trans List.mem_filter
  cases hfind : m.dirs.reverse.find? fun d =>
      d.isComplete && SnapshotDir.hasFile d sourceName with
  | none =>
    refine List.find?_eq_none.mpr fun d hd hfile => ?_
    obtain ⟨hd, hcomplete⟩ := (hmem d).mp hd
    refine List.find?_eq_none.mp hfind d (List.mem_reverse.mpr hd) ?_
    rw [hcomplete]
    simpa using hfile
  | some x =>
    obtain ⟨hp, newer, older, hsplit, hnewer⟩ := List.find?_eq_some_iff_append.mp hfind
    rw [Bool.and_eq_true] at hp
    have hpair := List.pairwise_reverse.mpr h
    have hx : x ∈ m.dirs := List.mem_reverse.mp (by rw [hsplit]; simp)
    rw [hsplit] at hpair
    refine find?_eq_some_of_greatest (f := rank) ?_ ((hmem x).mpr ⟨hx, hp.1⟩)
      (by rw [hp.2]; rfl) fun y hy hfile hne => ?_
    · have : Std.Total fun a b : SnapshotDir => rank b ≤ rank a := ⟨fun a b => le_total _ _⟩
      have : IsTrans SnapshotDir fun a b => rank b ≤ rank a := ⟨fun _ _ _ hab hbc => hbc.trans hab⟩
      exact List.pairwise_insertionSort _ _
    · obtain ⟨hy, hcomplete⟩ := (hmem y).mp hy
      have hmem : y ∈ newer ++ x :: older := by
        rw [← hsplit]
        exact List.mem_reverse.mpr hy
      rcases List.mem_append.mp hmem with hy | hy
      · have hnot := hnewer y hy
        rw [hcomplete, Bool.true_and, ← Bool.and_true (SnapshotDir.hasFile _ _), hfile] at hnot
        cases hnot
      · have hold := (List.mem_cons.mp hy).resolve_left hne
        exact List.rel_of_pairwise_cons (List.pairwise_append.mp hpair).2.1 hold

theorem ranked_step {a : Action} (h : m.dirs.Pairwise fun x y => rank x < rank y)
    (ha : InOrder m a) : (step m a).dirs.Pairwise fun x y => rank x < rank y := by
  refine pairwise_step h fun c id hc hid hlate => ?_
  rw [hc] at ha
  obtain hreserve | hearly | hrank := ha
  · cases hid.symm.trans hreserve
  · cases hearly.symm.trans hlate
  · exact hrank

/-- Two of four snapshots are left when the manager starts again, so the fifth one has the sequence
of the third. -/
def renumbered : List Action :=
  [.create (creation (str "a") 1 none), .create (creation (str "b") 2 none),
    .create (creation (str "c") 3 none), .create (creation (str "d") 4 none), .restart,
    .create (creation (str "e") 5 none)]

end Adaad.LedgerGuardian
