import Adaad.Evolution.MultiGenLineage
import Adaad.Py.Reference

/-!
# Generations of a ledger

The graph that is built of a ledger has the epochs of its end events, with the parents that these
record.  Where the relation that they record has no cycle, the generation of an epoch is the length
of the longest path of parents from an epoch without parents, whatever the order of the entries
(`Described`, `Same`).

The loop that finds the generations ends exactly when no cycle can be reached from an epoch without
parents (`replayed_iff`).
-/

namespace Adaad.Evolution.MultiGenLineage

open Py LongestPath

variable {P : Platform}

/-! ### What a ledger records -/

def LedgerEntry.EndOf (entry : LedgerEntry P) (eid : Str) : Prop :=
  eid ≠ [] ∧ entry.epochId = eid ∧ entry.isEpochEnd = true

instance (entry : LedgerEntry P) (eid : Str) : Decidable (entry.EndOf eid) :=
  inferInstanceAs (Decidable (_ ∧ _))

def Known (entries : List (LedgerEntry P)) (eid : Str) : Prop :=
  ∃ entry ∈ entries, entry.EndOf eid

/-- An end event of the child names the parent. -/
def Recorded (entries : List (LedgerEntry P)) (pid eid : Str) : Prop :=
  ∃ entry ∈ entries, entry.EndOf eid ∧ entry.parentId = some pid

def Root (entries : List (LedgerEntry P)) (eid : Str) : Prop :=
  Known entries eid ∧ ∀ pid, ¬ Recorded entries pid eid

def Acyclic (entries : List (LedgerEntry P)) : Prop :=
  ∀ eid, ¬ Relation.TransGen (Recorded entries) eid eid

/-- No cycle can be reached from an epoch without parents. -/
def RootsAcyclic (entries : List (LedgerEntry P)) : Prop :=
  ∀ root, Root entries root → ∀ eid, Relation.ReflTransGen (Recorded entries) root eid →
    ¬ Relation.TransGen (Recorded entries) eid eid

/-- The generation is the length of the longest path from an epoch without parents, or 0. -/
def Generation (entries : List (LedgerEntry P)) (eid : Str) (generation : Nat) : Prop :=
  ((∃ root, Root entries root ∧ Relation.ReflTransGen (Recorded entries) root eid) →
    IsGreatest {n | ∃ root, Root entries root ∧ Steps (Recorded entries) root n eid} generation) ∧
  ((¬ ∃ root, Root entries root ∧ Relation.ReflTransGen (Recorded entries) root eid) →
    generation = 0)

/-- The node of an epoch is as the ledger records it. -/
structure NodeOf (entries : List (LedgerEntry P)) (phase : Int) (version eid : Str)
    (node : GenerationNode P) : Prop where
  epochId : node.epochId = eid
  parentIds : ∀ pid, pid ∈ node.parentIds ↔ Recorded entries pid eid
  generation : Generation entries eid node.generation
  /-- The scalar fields are those of the first end event. -/
  scalars : ∃ entry record, entries.find? (fun entry => entry.EndOf eid) = some entry ∧
    record = entry.record phase version ∧ node.phase = record.phase ∧
    node.version = record.version ∧ node.outcome = record.outcome ∧
    node.ledgerHash = record.ledgerHash ∧ node.seedId = record.seedId ∧
    node.recordedAt = record.recordedAt

/-- The graph has the epochs of the ledger. -/
structure Described (entries : List (LedgerEntry P)) (phase : Int) (version : Str)
    (g : MultiGenLineageGraph P) : Prop where
  known : ∀ eid, eid ∈ Assoc.keys g.nodes ↔ Known entries eid
  nodes : ∀ eid node, g.nodes.lookup eid = some node → NodeOf entries phase version eid node

/-- The graphs differ at most in the scalar fields of their nodes. -/
structure Same (g g' : MultiGenLineageGraph P) : Prop where
  known : ∀ eid, eid ∈ Assoc.keys g.nodes ↔ eid ∈ Assoc.keys g'.nodes
  generation : ∀ eid node node', g.nodes.lookup eid = some node → g'.nodes.lookup eid = some node' →
    node.generation = node'.generation
  parentIds : ∀ eid node node', g.nodes.lookup eid = some node → g'.nodes.lookup eid = some node' →
    ∀ pid, pid ∈ node.parentIds ↔ pid ∈ node'.parentIds

/-- A graph is built of the ledger, and where the recorded relation has no cycle it is as the ledger
records it, and the same in any order of the entries but for the scalar fields. -/
def Replayed (entries : List (LedgerEntry P)) (phase : Int) (version : Str) : Prop :=
  ∃ fuel g, fromLedger fuel (some entries) phase version = some g ∧
    (Acyclic entries → Described entries phase version g ∧
      ∀ entries' : List (LedgerEntry P), entries'.Perm entries →
        ∃ fuel' g', fromLedger fuel' (some entries') phase version = some g' ∧ Same g g')

/-! ### The scan -/

variable {entries : List (LedgerEntry P)} {phase : Int} {version : Str} {seen : SeenEpochs P}

/-- What `seen_epochs` has of the entries before. -/
structure Scanned (entries : List (LedgerEntry P)) (phase : Int) (version : Str)
    (seen : SeenEpochs P) : Prop where
  nodup : (Assoc.keys seen).Nodup
  known : ∀ eid, eid ∈ Assoc.keys seen ↔ Known entries eid
  parentIds : ∀ eid r, seen.lookup eid = some r → ∀ pid, pid ∈ r.parentIds ↔ Recorded entries pid eid
  scalars : ∀ eid r, seen.lookup eid = some r → ∃ entry,
    entries.find? (fun entry => entry.EndOf eid) = some entry ∧
      r = { entry.record phase version with parentIds := r.parentIds }

theorem mem_addTo {s : List Str} {x y : Str} : y ∈ addTo s x ↔ y ∈ s ∨ y = x := by
  unfold addTo
  by_cases hx : x ∈ s
  · rw [if_pos hx]
    exact ⟨.inl, fun h => h.elim id fun hy => hy ▸ hx⟩
  · rw [if_neg hx, List.mem_append, List.mem_singleton]

theorem mem_withParent {r : EpochRecord P} {parent : Option Str} {pid : Str} :
    pid ∈ (r.withParent parent).parentIds ↔ pid ∈ r.parentIds ∨ parent = some pid := by
  cases parent with
  | none => exact ⟨.inl, fun h => h.resolve_right (Option.some_ne_none pid).symm⟩
  | some p =>
    rw [Option.some.injEq, eq_comm (a := p)]
    exact mem_addTo

theorem withParent_eq (r : EpochRecord P) (parent : Option Str) :
    r.withParent parent = { r with parentIds := (r.withParent parent).parentIds } := by
  cases parent <;> rfl

theorem known_concat {entry : LedgerEntry P} {eid : Str} :
    Known (entries ++ [entry]) eid ↔ Known entries eid ∨ entry.EndOf eid := by
  unfold Known
  simp only [List.mem_append, List.mem_singleton]
  constructor
  · rintro ⟨e, he | rfl, hend⟩
    · exact .inl ⟨e, he, hend⟩
    · exact .inr hend
  · rintro (⟨e, he, hend⟩ | hend)
    · exact ⟨e, .inl he, hend⟩
    · exact ⟨entry, .inr rfl, hend⟩

theorem recorded_concat {entry : LedgerEntry P} {pid eid : Str} :
    Recorded (entries ++ [entry]) pid eid ↔
      Recorded entries pid eid ∨ (entry.EndOf eid ∧ entry.parentId = some pid) := by
  unfold Recorded
  simp only [List.mem_append, List.mem_singleton]
  constructor
  · rintro ⟨e, he | rfl, hend⟩
    · exact .inl ⟨e, he, hend⟩
    · exact .inr hend
  · rintro (⟨e, he, hend⟩ | hend)
    · exact ⟨e, .inl he, hend⟩
    · exact ⟨entry, .inr rfl, hend⟩

theorem Recorded.known {pid eid : Str} (h : Recorded entries pid eid) : Known entries eid := by
  obtain ⟨entry, hentry, hend, -⟩ := h
  exact ⟨entry, hentry, hend⟩

theorem Scanned.skip (h : Scanned entries phase version seen) {entry : LedgerEntry P}
    (hskip : ∀ eid, ¬ entry.EndOf eid) : Scanned (entries ++ [entry]) phase version seen where
  nodup := h.nodup
  known eid := by rw [known_concat, or_iff_left (hskip eid), h.known]
  parentIds eid r hr pid := by
    rw [recorded_concat, or_iff_left fun hend => hskip eid hend.1, h.parentIds eid r hr]
  scalars eid r hr := by
    obtain ⟨first, hfirst, hrest⟩ := h.scalars eid r hr
    exact ⟨first, by rw [List.find?_append, hfirst]; rfl, hrest⟩

theorem Scanned.add (h : Scanned entries phase version seen) {entry : LedgerEntry P} {eid : Str}
    (hend : entry.EndOf eid) :
    Scanned (entries ++ [entry]) phase version (Assoc.set seen eid
      (((seen.lookup eid).getD (entry.record phase version)).withParent entry.parentId)) := by
  have hother : ∀ x, x ≠ eid → ¬ entry.EndOf x := fun x hx hx' => hx (hx'.2.1.symm.trans hend.2.1)
  have hunknown : seen.lookup eid = none → ¬ Known entries eid := by
    intro hnone hknown
    obtain ⟨r, hr⟩ := Assoc.mem_keys_iff.mp ((h.known eid).mpr hknown)
    rw [hnone] at hr
    cases hr
  refine ⟨Assoc.nodup_keys_set h.nodup _ _, fun x => ?_, fun x r hr pid => ?_, fun x r hr => ?_⟩
  · rw [Assoc.mem_keys_set, known_concat, h.known]
    by_cases hx : x = eid
    · exact iff_of_true (.inl hx) (.inr (hx ▸ hend))
    · rw [or_iff_right hx, or_iff_left (hother x hx)]
  · rw [Assoc.lookup_set] at hr
    rw [recorded_concat]
    by_cases hx : x = eid
    · rw [if_pos hx] at hr
      obtain rfl := Option.some.inj hr
      rw [mem_withParent, hx, and_iff_right hend]
      refine or_congr_left ?_
      cases hlookup : seen.lookup eid with
      | some r => exact h.parentIds eid r hlookup pid
      | none =>
        exact iff_of_false List.not_mem_nil fun hrecorded => hunknown hlookup hrecorded.known
    · rw [if_neg hx] at hr
      rw [or_iff_left fun hboth => hother x hx hboth.1, h.parentIds x r hr]
  · rw [Assoc.lookup_set] at hr
    rw [List.find?_append]
    by_cases hx : x = eid
    · rw [if_pos hx] at hr
      obtain rfl := Option.some.inj hr
      rw [hx]
      cases hlookup : seen.lookup eid with
      | some r =>
        obtain ⟨first, hfirst, heq⟩ := h.scalars eid r hlookup
        refine ⟨first, by rw [hfirst]; rfl, ?_⟩
        rw [Option.getD_some, withParent_eq, heq]
      | none =>
        have hnone : entries.find? (fun entry => entry.EndOf eid) = none := by
          rw [List.find?_eq_none]
          exact fun e he hdecide => hunknown hlookup ⟨e, he, of_decide_eq_true hdecide⟩
        refine ⟨entry, ?_, withParent_eq _ _⟩
        have hfirst : [entry].find? (fun entry => entry.EndOf eid) = some entry := by simp [hend]
        rw [hnone, hfirst]
        rfl
    · rw [if_neg hx] at hr
      obtain ⟨first, hfirst, heq⟩ := h.scalars x r hr
      exact ⟨first, by rw [hfirst]; rfl, heq⟩

theorem Scanned.entry (h : Scanned entries phase version seen) (entry : LedgerEntry P) :
    Scanned (entries ++ [entry]) phase version (scanEntry phase version seen entry) := by
  unfold scanEntry
  dsimp only
  by_cases hnil : entry.epochId = []
  · rw [if_pos hnil]
    exact h.skip fun eid hend => hend.1 (hend.2.1.symm.trans hnil)
  by_cases htype : entry.isEpochEnd = true
  · rw [if_neg hnil, if_pos htype]
    exact h.add ⟨hnil, rfl, htype⟩
  · rw [if_neg hnil, if_neg htype]
    exact h.skip fun eid hend => htype hend.2.2

theorem scanned_scan (phase : Int) (version : Str) (entries : List (LedgerEntry P)) :
    Scanned entries phase version (scan phase version entries) := by
  unfold scan
  induction entries using List.reverseRecOn with
  | nil =>
    refine ⟨List.nodup_nil, fun eid => iff_of_false List.not_mem_nil ?_, fun eid r hr => ?_,
      fun eid r hr => ?_⟩
    · rintro ⟨entry, hentry, -⟩
      exact List.not_mem_nil hentry
    · cases hr
    · cases hr
  | append_singleton entries entry ih =>
    rw [List.foldl_append]
    exact ih.entry entry

/-! ### The recorded relation -/

theorem Scanned.mem_childrenOf (h : Scanned entries phase version seen) {pid eid : Str} :
    eid ∈ childrenOf seen pid ↔ Recorded entries pid eid := by
  constructor
  · intro hmem
    obtain ⟨m, hm, rfl⟩ := List.mem_map.mp hmem
    obtain ⟨hm, hparent⟩ := List.mem_filter.mp hm
    exact (h.parentIds m.1 m.2 ((Assoc.lookup_eq_some_iff h.nodup).mpr hm) pid).mp
      (of_decide_eq_true hparent)
  · intro hrecorded
    obtain ⟨r, hr⟩ := Assoc.mem_keys_iff.mp ((h.known eid).mpr hrecorded.known)
    have hmem := (Assoc.lookup_eq_some_iff h.nodup).mp hr
    exact List.mem_map.mpr ⟨(eid, r), List.mem_filter.mpr ⟨hmem,
      decide_eq_true ((h.parentIds eid r hr pid).mpr hrecorded)⟩, rfl⟩

theorem Scanned.edge_eq (h : Scanned entries phase version seen) :
    Edge (childrenOf seen) = Recorded entries :=
  funext fun _ => funext fun _ => propext h.mem_childrenOf

theorem Scanned.mem_rootsOf (h : Scanned entries phase version seen) {eid : Str} :
    eid ∈ rootsOf seen ↔ Root entries eid := by
  constructor
  · intro hmem
    obtain ⟨m, hm, rfl⟩ := List.mem_map.mp hmem
    obtain ⟨hm, hroot⟩ := List.mem_filter.mp hm
    have hlookup := (Assoc.lookup_eq_some_iff h.nodup).mpr hm
    refine ⟨(h.known m.1).mp (List.mem_map_of_mem hm), fun pid hrecorded => ?_⟩
    have hparent := (h.parentIds m.1 m.2 hlookup pid).mpr hrecorded
    rw [of_decide_eq_true hroot] at hparent
    exact List.not_mem_nil hparent
  · rintro ⟨hknown, hnone⟩
    obtain ⟨r, hr⟩ := Assoc.mem_keys_iff.mp ((h.known eid).mpr hknown)
    have hmem := (Assoc.lookup_eq_some_iff h.nodup).mp hr
    have hparents : r.parentIds = [] := by
      refine List.eq_nil_iff_forall_not_mem.mpr fun pid hpid => ?_
      exact hnone pid ((h.parentIds eid r hr pid).mp hpid)
    exact List.mem_map.mpr ⟨(eid, r), List.mem_filter.mpr ⟨hmem, decide_eq_true hparents⟩, rfl⟩

theorem Scanned.exists_generations_iff (h : Scanned entries phase version seen) :
    (∃ fuel genMap, generations fuel seen = some genMap) ↔ RootsAcyclic entries := by
  have hchildren : ∀ a, ∀ c ∈ childrenOf seen a, c ∈ Assoc.keys seen :=
    fun a c hc => (h.known c).mpr (h.mem_childrenOf.mp hc).known
  have hroots : ∀ root ∈ rootsOf seen, root ∈ Assoc.keys seen :=
    fun root hroot => (h.known root).mpr (h.mem_rootsOf.mp hroot).1
  unfold generations
  rw [exists_relax_iff hroots hchildren, h.edge_eq]
  unfold NoCycle RootsAcyclic
  exact forall_congr' fun root => imp_congr_left h.mem_rootsOf

theorem Scanned.generation (h : Scanned entries phase version seen) {fuel : Nat}
    {genMap : List (Str × Nat)} (hgen : generations fuel seen = some genMap) (eid : Str) :
    Generation entries eid ((genMap.lookup eid).getD 0) := by
  have hrelaxed := relaxed_start.relax hgen
  have hset : {n | ∃ root ∈ rootsOf seen, Steps (Edge (childrenOf seen)) root n eid} =
      {n | ∃ root, Root entries root ∧ Steps (Recorded entries) root n eid} := by
    ext n
    rw [h.edge_eq]
    exact exists_congr fun root => and_congr_left' h.mem_rootsOf
  cases hlookup : genMap.lookup eid with
  | some d =>
    refine ⟨fun _ => hset ▸ hrelaxed.isGreatest hlookup, fun hnone => absurd ?_ hnone⟩
    obtain ⟨root, hroot, hsteps⟩ := hset ▸ (hrelaxed.isGreatest hlookup).1
    exact ⟨root, hroot, hsteps.reflTransGen⟩
  | none =>
    refine ⟨fun hreach => ?_, fun _ => rfl⟩
    obtain ⟨root, hroot, hreach⟩ := hreach
    refine absurd ?_ (hrelaxed.eq_none hlookup root (h.mem_rootsOf.mpr hroot))
    rw [h.edge_eq]
    exact hreach

/-! ### The graph -/

theorem nodes_foldl_registerParent (node : GenerationNode P) (pids : List Str)
    (g : MultiGenLineageGraph P) : (pids.foldl (registerParent node) g).nodes = g.nodes := by
  induction pids generalizing g with
  | nil => rfl
  | cons pid pids ih => exact ih _

theorem nodes_registerNode {g : MultiGenLineageGraph P} {node : GenerationNode P}
    (hnew : node.epochId ∉ Assoc.keys g.nodes) :
    (registerNode g node).nodes = g.nodes ++ [(node.epochId, node)] := by
  unfold registerNode
  rw [if_neg hnew, nodes_foldl_registerParent]
  exact Assoc.set_of_notMem hnew node

theorem nodes_foldl_registerNode {g : MultiGenLineageGraph P} {nodes : List (GenerationNode P)}
    (hnodup : (Assoc.keys g.nodes ++ nodes.map GenerationNode.epochId).Nodup) :
    (nodes.foldl registerNode g).nodes = g.nodes ++ nodes.map fun node => (node.epochId, node) := by
  induction nodes generalizing g with
  | nil => exact (List.append_nil _).symm
  | cons node nodes ih =>
    have hnew : node.epochId ∉ Assoc.keys g.nodes := by
      intro hmem
      exact (List.nodup_append.mp hnodup).2.2 _ hmem _ List.mem_cons_self rfl
    have hkeys : Assoc.keys (registerNode g node).nodes ++ nodes.map GenerationNode.epochId =
        Assoc.keys g.nodes ++ (node :: nodes).map GenerationNode.epochId := by
      rw [nodes_registerNode hnew]
      unfold Assoc.keys
      simp
    rw [List.foldl_cons, ih (hkeys ▸ hnodup), nodes_registerNode hnew, List.map_cons,
      List.append_assoc]
    rfl

theorem Scanned.nodes_graph (h : Scanned entries phase version seen) (genMap : List (Str × Nat)) :
    ((seen.map (nodeOf genMap)).foldl registerNode {}).nodes =
      seen.map fun m => (m.1, nodeOf genMap m) := by
  have hkeys : (seen.map (nodeOf genMap)).map GenerationNode.epochId = Assoc.keys seen := by
    rw [List.map_map]
    rfl
  rw [nodes_foldl_registerNode, List.map_map]
  · rfl
  · rw [hkeys]
    exact h.nodup

theorem Scanned.described (h : Scanned entries phase version seen) {fuel : Nat}
    {genMap : List (Str × Nat)} (hgen : generations fuel seen = some genMap) :
    Described entries phase version ((seen.map (nodeOf genMap)).foldl registerNode {}) := by
  refine ⟨fun eid => ?_, fun eid node hnode => ?_⟩
  · rw [h.nodes_graph, ← h.known]
    unfold Assoc.keys
    rw [List.map_map]
    exact Iff.rfl
  · rw [h.nodes_graph, Assoc.lookup_map_keyed (fun eid r => nodeOf genMap (eid, r))] at hnode
    obtain ⟨r, hr, rfl⟩ := Option.map_eq_some_iff.mp hnode
    obtain ⟨entry, hfirst, heq⟩ := h.scalars eid r hr
    refine ⟨rfl, h.parentIds eid r hr, h.generation hgen eid, entry, _, hfirst, rfl, ?_⟩
    unfold nodeOf
    dsimp only
    rw [heq]
    exact ⟨rfl, rfl, rfl, rfl, rfl, rfl⟩

/-! ### The order of the entries -/

variable {entries' : List (LedgerEntry P)} {g g' : MultiGenLineageGraph P}

theorem known_of_perm (h : entries'.Perm entries) : Known entries' = Known entries := by
  funext eid
  exact propext (exists_congr fun entry => and_congr_left' h.mem_iff)

theorem recorded_of_perm (h : entries'.Perm entries) : Recorded entries' = Recorded entries := by
  funext pid eid
  exact propext (exists_congr fun entry => and_congr_left' h.mem_iff)

theorem root_of_perm (h : entries'.Perm entries) : Root entries' = Root entries := by
  unfold Root
  rw [known_of_perm h, recorded_of_perm h]

theorem acyclic_of_perm (h : entries'.Perm entries) : Acyclic entries' ↔ Acyclic entries := by
  unfold Acyclic
  rw [recorded_of_perm h]

theorem Generation.unique {eid : Str} {n m : Nat} (h : Generation entries eid n)
    (h' : Generation entries eid m) : n = m := by
  by_cases hreach : ∃ root, Root entries root ∧ Relation.ReflTransGen (Recorded entries) root eid
  · exact (h.1 hreach).unique (h'.1 hreach)
  · rw [h.2 hreach, h'.2 hreach]

theorem Described.same (h : Described entries phase version g)
    (h' : Described entries' phase version g') (hperm : entries'.Perm entries) : Same g g' where
  known eid := by rw [h.known, h'.known, known_of_perm hperm]
  generation eid node node' hnode hnode' := by
    have hgen := (h'.nodes eid node' hnode').generation
    unfold Generation at hgen
    rw [root_of_perm hperm, recorded_of_perm hperm] at hgen
    exact (h.nodes eid node hnode).generation.unique hgen
  parentIds eid node node' hnode hnode' pid := by
    rw [(h.nodes eid node hnode).parentIds, (h'.nodes eid node' hnode').parentIds,
      recorded_of_perm hperm]

/-! ### When a graph is built -/

theorem Acyclic.rootsAcyclic (h : Acyclic entries) : RootsAcyclic entries :=
  fun _ _ eid _ => h eid

theorem exists_fromLedger_iff :
    (∃ fuel g, fromLedger fuel (some entries) phase version = some g) ↔ RootsAcyclic entries := by
  rw [← (scanned_scan phase version entries).exists_generations_iff]
  constructor
  · rintro ⟨fuel, g, hg⟩
    obtain ⟨genMap, hgen, -⟩ := Option.map_eq_some_iff.mp hg
    exact ⟨fuel, genMap, hgen⟩
  · rintro ⟨fuel, genMap, hgen⟩
    exact ⟨fuel, _, Option.map_eq_some_iff.mpr ⟨genMap, hgen, rfl⟩⟩

theorem described_of_fromLedger {fuel : Nat}
    (h : fromLedger fuel (some entries) phase version = some g) :
    Described entries phase version g := by
  obtain ⟨genMap, hgen, rfl⟩ := Option.map_eq_some_iff.mp h
  exact (scanned_scan phase version entries).described hgen

/-- The graph is built, and is as the ledger records it, exactly when no cycle can be reached from an
epoch without parents. -/
theorem replayed_iff (entries : List (LedgerEntry P)) (phase : Int) (version : Str) :
    Replayed entries phase version ↔ RootsAcyclic entries := by
  rw [← @exists_fromLedger_iff P entries phase version]
  constructor
  · rintro ⟨fuel, g, hg, -⟩
    exact ⟨fuel, g, hg⟩
  · rintro ⟨fuel, g, hg⟩
    have hdescribed := described_of_fromLedger hg
    refine ⟨fuel, g, hg, fun hacyclic => ⟨hdescribed, fun entries' hperm => ?_⟩⟩
    obtain ⟨fuel', g', hg'⟩ := exists_fromLedger_iff.mpr
      ((acyclic_of_perm hperm).mpr hacyclic).rootsAcyclic
    exact ⟨fuel', g', hg', hdescribed.same (described_of_fromLedger hg') hperm⟩

/-! ### A cycle below a root -/

/-- An end event of an epoch with this parent, if any. -/
def epochEnd (P : Platform) (eid : Str) (parent : Option Str) : LedgerEntry P where
  type := some (.str (str "EpochEndEvent"))
  hash := none
  payload := (.str (str "epoch_id"), .str eid) ::
    (parent.map fun pid => (Key.str (str "parent_epoch_id"), Value.str pid)).toList
  phase := none
  phase_eq := by cases parent <;> rfl

/-- `b` was seeded from `a` and from `c`, and `c` from `b`. -/
def cyclicLedger (P : Platform) : List (LedgerEntry P) :=
  [epochEnd P (str "a") none, epochEnd P (str "b") (some (str "a")),
    epochEnd P (str "b") (some (str "c")), epochEnd P (str "c") (some (str "b"))]

/-- Not every ledger is replayed: the loop goes around this cycle without end. -/
theorem not_replayed_cyclicLedger : ¬ Replayed (cyclicLedger reference) 0 [] := by
  rw [replayed_iff]
  intro h
  have hmem : ∀ i (hi : i < 4), (cyclicLedger reference)[i] ∈ cyclicLedger reference :=
    fun i hi => List.getElem_mem hi
  have hab : Recorded (cyclicLedger reference) (str "a") (str "b") :=
    ⟨_, hmem 1 (by decide), by decide, rfl⟩
  have hcb : Recorded (cyclicLedger reference) (str "c") (str "b") :=
    ⟨_, hmem 2 (by decide), by decide, rfl⟩
  have hbc : Recorded (cyclicLedger reference) (str "b") (str "c") :=
    ⟨_, hmem 3 (by decide), by decide, rfl⟩
  have hroot : Root (cyclicLedger reference) (str "a") := by
    refine ⟨⟨_, hmem 0 (by decide), by decide⟩, ?_⟩
    rintro pid ⟨entry, hentry, hend, hparent⟩
    simp only [cyclicLedger, List.mem_cons, List.not_mem_nil, or_false] at hentry
    rcases hentry with rfl | rfl | rfl | rfl
    · cases hparent
    · exact absurd hend (by decide)
    · exact absurd hend (by decide)
    · exact absurd hend (by decide)
  exact h (str "a") hroot (str "b") (.single hab) ((Relation.TransGen.single hbc).tail hcb)

end Adaad.Evolution.MultiGenLineage
