import Adaad.Chain
import Adaad.Dorkllm.AmendmentExecutor
import Adaad.EntryLog
import Adaad.Py.TextFile
import Mathlib.Data.List.Forall2

/-!
# A cycle of the amendment executor

What a turn of the loop does (`executeProposal_cases`), the loop (`executeProposals_spec`) and the
cycle (`execute_spec`): the records that are written to the ledger are of accepted proposals, in
their order, and tell of changes that lead from the constitution as it was to the one that is
written in the end.

A process that stops has written a beginning of the records and no constitution, or all the records
and the constitution (`World.store_step`).
-/

namespace Adaad.AmendmentExecutor

open Py Run EntryLog

variable {P : Platform} {x : Executor} {s : Store} {e : Env} {cycleId : Str} {d : Draws}
  {p : Proposal} {ps : List Proposal} {b b' : Batch} {draws : Nat → Draws} {ws : List Write}
  {res : Except Exc Unit}

/-! ### Writes -/

def Write.IsLine : Write → Prop
  | .rejection _ => True
  | .execution _ => True
  | _ => False

/-- The record of a write to the execution ledger. -/
def Write.record? : Write → Option ExecutionRecord
  | .execution r => some r
  | _ => none

/-- The records that are written to the execution ledger. -/
def recordsOf (ws : List Write) : List ExecutionRecord :=
  ws.filterMap Write.record?

theorem recordsOf_append (ws ws' : List Write) :
    recordsOf (ws ++ ws') = recordsOf ws ++ recordsOf ws' :=
  List.filterMap_append

theorem executions_after (s : Store) (ws : List Write) :
    (Writes.after Store.write s ws).executions = s.executions ++ recordsOf ws := by
  induction ws generalizing s with
  | nil => exact (List.append_nil _).symm
  | cons w ws ih =>
    rw [Writes.after_cons, ih]
    cases w with
    | execution r => exact List.append_assoc s.executions [r] (recordsOf ws)
    | _ => rfl

theorem constitution_after (h : .replace ∉ ws) :
    (Writes.after Store.write s ws).constitution = s.constitution := by
  refine Writes.after_frame fun s' w hw => ?_
  cases w with
  | replace => exact absurd hw h
  | _ => rfl

theorem replace_notMem_of_lines (h : ∀ w ∈ ws, w.IsLine) : .replace ∉ ws :=
  fun hw => h .replace hw

/-! ### The chain -/

/-- The record has the hash that it must have after this one. -/
def ExecutionRecord.Follows (P : Platform) (previousHash : Str) (r : ExecutionRecord) : Prop :=
  r.hmacChainHash = hmacHex P (sortedJson P r.payload) previousHash

/-- The ledger is the chain that the executor has written. -/
def Chained (P : Platform) (ledger : List ExecutionRecord) : Prop :=
  Chain.Linked (ExecutionRecord.Follows P) ExecutionRecord.hmacChainHash genesisHash ledger

theorem getPreviousChainHash_eq {ledgerPath hash : Str} {ledger : List ExecutionRecord}
    (h : getPreviousChainHash ledgerPath (ledger.map ExecutionRecord.hmacChainHash) = .ok hash) :
    hash = Chain.lastHash ExecutionRecord.hmacChainHash genesisHash ledger := by
  unfold getPreviousChainHash at h
  rw [Chain.lastHash_eq, ← List.getLast?_map]
  cases hlast : (ledger.map ExecutionRecord.hmacChainHash).getLast? with
  | none =>
    rw [hlast] at h
    exact (Except.ok.inj h).symm
  | some last =>
    rw [hlast] at h
    simp only at h
    split_ifs at h with hempty
    exact (Except.ok.inj h).symm

theorem Chained.concat {ledgerPath hash : Str} {ledger : List ExecutionRecord} {r : ExecutionRecord}
    (h : Chained P ledger)
    (hhash : chainHash P ledgerPath (ledger.map ExecutionRecord.hmacChainHash) r.payload =
      .ok hash) : Chained P (ledger ++ [{ r with hmacChainHash := hash }]) := by
  obtain ⟨previous, hprevious, rfl⟩ := map_eq_ok.mp hhash
  refine Chain.linked_concat.mpr ⟨h, ?_⟩
  rw [← getPreviousChainHash_eq hprevious]
  rfl

theorem hmacHex_ne_nil (payload previousHash : Str) : hmacHex P payload previousHash ≠ [] := by
  intro hnil
  have hlength := congrArg List.length hnil
  rw [hmacHex, hmacSha256, P.length_sha256] at hlength
  cases hlength

theorem exists_chainHash {ledgerPath : Str} {hashes : List Str} (payload : Members P.Float)
    (h : ∀ hash ∈ hashes, hash ≠ []) :
    ∃ hash, chainHash P ledgerPath hashes payload = .ok hash ∧ hash ≠ [] := by
  unfold chainHash getPreviousChainHash
  cases hlast : hashes.getLast? with
  | none => exact ⟨_, rfl, hmacHex_ne_nil _ _⟩
  | some last =>
    simp only [if_neg (h last (List.mem_of_getLast? hlast))]
    exact ⟨_, rfl, hmacHex_ne_nil _ _⟩

theorem ne_nil_of_linked {h : Str} {ledger : List ExecutionRecord}
    (hlinked : Chain.Linked (ExecutionRecord.Follows P) ExecutionRecord.hmacChainHash h ledger) :
    ∀ hash ∈ ledger.map ExecutionRecord.hmacChainHash, hash ≠ [] := by
  induction ledger generalizing h with
  | nil => exact fun hash hhash => absurd hhash List.not_mem_nil
  | cons r ledger ih =>
    refine List.forall_mem_cons.mpr ⟨?_, ih hlinked.2⟩
    rw [hlinked.1]
    exact hmacHex_ne_nil _ _

theorem verifyFrom_of_linked {h : Str} {ledger : List ExecutionRecord}
    (hlinked : Chain.Linked (ExecutionRecord.Follows P) ExecutionRecord.hmacChainHash h ledger) :
    verifyFrom P h ledger = true := by
  induction ledger generalizing h with
  | nil => rfl
  | cons r ledger ih =>
    rw [verifyFrom, ← hlinked.1, if_neg (fun hne => hne rfl)]
    exact ih hlinked.2

theorem Chained.verifyChain {ledger : List ExecutionRecord} (h : Chained P ledger) :
    verifyChain P ledger = true :=
  verifyFrom_of_linked h

/-! ### Records and proposals -/

section sublistForall₂

variable {α β γ : Type} {R : α → β → Prop} {as : List α} {bs : List β}

theorem exists_of_sublistForall₂ (h : List.SublistForall₂ R as bs) :
    ∀ a ∈ as, ∃ b ∈ bs, R a b := by
  induction h with
  | nil => exact fun a ha => absurd ha List.not_mem_nil
  | cons hab _ ih =>
    intro a ha
    rcases List.mem_cons.mp ha with rfl | ha
    · exact ⟨_, List.mem_cons_self, hab⟩
    · obtain ⟨b, hb, hR⟩ := ih a ha
      exact ⟨b, List.mem_cons_of_mem _ hb, hR⟩
  | cons_right _ ih =>
    intro a ha
    obtain ⟨b, hb, hR⟩ := ih a ha
    exact ⟨b, List.mem_cons_of_mem _ hb, hR⟩

theorem sublist_map_of_sublistForall₂ {f : α → γ} {g : β → γ} (h : List.SublistForall₂ R as bs)
    (hfg : ∀ a, ∀ b ∈ bs, R a b → f a = g b) : (as.map f).Sublist (bs.map g) := by
  induction h with
  | nil => exact List.nil_sublist _
  | cons hab _ ih =>
    rw [List.map_cons, List.map_cons, hfg _ _ List.mem_cons_self hab]
    exact (ih fun a b hb => hfg a b (List.mem_cons_of_mem _ hb)).cons_cons _
  | cons_right _ ih =>
    exact (ih fun a b hb => hfg a b (List.mem_cons_of_mem _ hb)).cons _

end sublistForall₂

/-! ### What a cycle writes -/

def ExecutionRecord.change (r : ExecutionRecord) : Change Str Entry where
  key := r.invariantId
  prior := r.priorState
  post := r.postState

/-- The record is of an execution of the proposal. -/
structure ExecutionRecord.Of (r : ExecutionRecord) (p : Proposal) : Prop where
  proposalId : ∀ id, p.proposalId = some id → r.proposalId = id
  invariantId : r.invariantId = p.invariantId
  action : r.action = p.amendment
  rationale : r.rationale = p.rationale
  governor : p.governor = AmendmentExecutor.governor
  other : isSelfReferential p.invariantId = false
  amended : ∃ now, amendEntry r.invariantId r.action r.rationale now r.priorState = .ok r.postState

/-- The record is of an execution of the proposal in a cycle that had not been seen with it. -/
structure ExecutionRecord.New (P : Platform) (cycleId : Str) (seenIds : List Str)
    (r : ExecutionRecord) (p : Proposal) : Prop extends r.Of p where
  executionId : AmendmentExecutor.executionId P r.proposalId cycleId = .ok r.executionId
  unseen : r.executionId ∉ seenIds

theorem applyAmendment_eq_ok {c c' : Constitution} {prior : Option Entry} {post : Entry}
    (h : applyAmendment c p d = .ok (c', prior, post)) :
    p.governor = governor ∧ prior = c.invariants.lookup p.invariantId ∧
      amendEntry p.invariantId p.amendment p.rationale d.entryAt prior = .ok post ∧
      c'.invariants = Assoc.set c.invariants p.invariantId post := by
  unfold applyAmendment at h
  by_cases hid : p.invariantId = []
  · rw [if_pos hid] at h
    cases h
  rw [if_neg hid] at h
  by_cases hgovernor : p.governor ≠ governor
  · rw [if_pos hgovernor] at h
    cases h
  rw [if_neg hgovernor] at h
  obtain ⟨entry, hentry, heq⟩ := map_eq_ok.mp h
  obtain ⟨rfl, rfl, rfl⟩ : _ = c' ∧ _ = prior ∧ entry = post := by
    simpa only [Prod.mk.injEq] using heq
  exact ⟨not_not.mp hgovernor, rfl, hentry, rfl⟩

/-- What a turn of the loop does: it raises and has written nothing; or it writes nothing to the
execution ledger and changes no entry; or it amends an entry and writes the record of that. -/
theorem executeProposal_cases (h : executeProposal P x s cycleId d p b = (res, b')) :
    ((∃ exc, res = .error exc) ∧ b'.writes = b.writes) ∨
    (res = .ok () ∧ b'.constitution = b.constitution ∧ b'.seenIds = b.seenIds ∧
      ∃ ws, b'.writes = b.writes ++ ws ∧ (∀ w ∈ ws, w.IsLine) ∧ recordsOf ws = []) ∨
    (res = .ok () ∧ ∃ r : ExecutionRecord, r.New P cycleId b.seenIds p ∧
      r.priorState = b.constitution.invariants.lookup r.invariantId ∧
      b'.constitution.invariants =
        Assoc.set b.constitution.invariants r.invariantId r.postState ∧
      b'.seenIds = r.executionId :: b.seenIds ∧ b'.writes = b.writes ++ [.execution r] ∧
      (Chained P (s.executions ++ recordsOf b.writes) →
        Chained P (s.executions ++ (recordsOf b.writes ++ [r])))) := by
  unfold executeProposal at h
  by_cases hself : isSelfReferential p.invariantId = true
  · simp only [if_pos hself] at h
    split at h
    · obtain ⟨rfl, rfl⟩ := Prod.mk.inj h
      exact .inl ⟨⟨_, rfl⟩, rfl⟩
    · obtain ⟨rfl, rfl⟩ := Prod.mk.inj h
      refine .inr (.inl ⟨rfl, rfl, rfl, _, rfl, ?_, rfl⟩)
      intro w hw
      rw [List.mem_singleton.mp hw]
      trivial
  simp only [if_neg hself] at h
  cases hid : executionId P (p.proposalId.getD d.proposalUuid) cycleId with
  | error exc =>
    rw [hid] at h
    obtain ⟨rfl, rfl⟩ := Prod.mk.inj h
    exact .inl ⟨⟨_, rfl⟩, rfl⟩
  | ok id =>
    rw [hid] at h
    simp only at h
    by_cases hseen : id ∈ b.seenIds
    · rw [if_pos hseen] at h
      obtain ⟨rfl, rfl⟩ := Prod.mk.inj h
      exact .inr (.inl ⟨rfl, rfl, rfl, [], (List.append_nil _).symm,
        fun w hw => absurd hw List.not_mem_nil, rfl⟩)
    rw [if_neg hseen] at h
    cases happly : applyAmendment b.constitution p d with
    | error message =>
      rw [happly] at h
      obtain ⟨rfl, rfl⟩ := Prod.mk.inj h
      exact .inr (.inl ⟨rfl, rfl, rfl, [], (List.append_nil _).symm,
        fun w hw => absurd hw List.not_mem_nil, rfl⟩)
    | ok result =>
      obtain ⟨c', prior, post⟩ := result
      rw [happly] at h
      simp only at h
      obtain ⟨hgovernor, hprior, hamended, hset⟩ := applyAmendment_eq_ok happly
      split at h
      · obtain ⟨rfl, rfl⟩ := Prod.mk.inj h
        exact .inl ⟨⟨_, rfl⟩, rfl⟩
      · next hash hhash =>
        obtain ⟨rfl, rfl⟩ := Prod.mk.inj h
        refine .inr (.inr ⟨rfl, { execRecord p _ id prior post d with hmacChainHash := hash },
          ?_, hprior, hset, rfl, rfl, fun hchained => ?_⟩)
        · exact {
            proposalId := fun pid hpid => by
              show p.proposalId.getD d.proposalUuid = pid
              rw [hpid]
              rfl
            invariantId := rfl
            action := rfl
            rationale := rfl
            governor := hgovernor
            other := eq_false_of_ne_true hself
            amended := ⟨_, hamended⟩
            executionId := hid
            unseen := hseen }
        · rw [executions_after] at hhash
          rw [← List.append_assoc]
          exact hchained.concat (r := execRecord p _ id prior post d) hhash

theorem ExecutionRecord.New.of_seen {r : ExecutionRecord} {id : Str} {seenIds : List Str}
    (h : r.New P cycleId (id :: seenIds) p) : r.New P cycleId seenIds p :=
  { h with unseen := fun hr => h.unseen (List.mem_cons_of_mem id hr) }

/-- What the loop does: it writes lines; the records among them are of proposals that had not been
seen, in their order, and lead from the constitution that it starts with to the one it ends with. -/
theorem executeProposals_spec (h : executeProposals P x s cycleId draws ps b = (res, b')) :
    ∃ ws c, b'.writes = b.writes ++ ws ∧ (∀ w ∈ ws, w.IsLine) ∧
      List.SublistForall₂ (ExecutionRecord.New P cycleId b.seenIds) (recordsOf ws) ps ∧
      Leads ExecutionRecord.change b.constitution.invariants (recordsOf ws) c ∧
      (res = .ok () → b'.constitution.invariants = c) ∧
      (Chained P (s.executions ++ recordsOf b.writes) →
        Chained P (s.executions ++ (recordsOf b.writes ++ recordsOf ws))) := by
  induction ps generalizing draws b with
  | nil =>
    obtain ⟨rfl, rfl⟩ := Prod.mk.inj h
    refine ⟨[], _, (List.append_nil _).symm, fun w hw => absurd hw List.not_mem_nil, .nil, rfl,
      fun _ => rfl, fun hchained => ?_⟩
    rwa [show recordsOf [] = [] from rfl, List.append_nil]
  | cons p ps ih =>
    rw [executeProposals] at h
    rcases hturn : executeProposal P x s cycleId (draws 0) p b with ⟨res₁, b₁⟩
    rw [hturn] at h
    rcases executeProposal_cases hturn with ⟨⟨exc, rfl⟩, hwrites⟩ |
      ⟨rfl, hc, hseen, ws, hwrites, hlines, hnone⟩ |
      ⟨rfl, r, hnew, hprior, hset, hseen, hwrites, hchained⟩
    · obtain ⟨rfl, rfl⟩ := Prod.mk.inj h
      refine ⟨[], _, by rw [hwrites, List.append_nil], fun w hw => absurd hw List.not_mem_nil, .nil,
        rfl, fun hok => (by cases hok), fun hchained => ?_⟩
      rwa [show recordsOf [] = [] from rfl, List.append_nil]
    · obtain ⟨ws', c, hwrites', hlines', hrecords, hleads, hend, hchained⟩ := ih h
      refine ⟨ws ++ ws', c, ?_, ?_, ?_, ?_, hend, ?_⟩
      · rw [hwrites', hwrites, List.append_assoc]
      · exact fun w hw => (List.mem_append.mp hw).elim (hlines w) (hlines' w)
      · rw [recordsOf_append, hnone]
        rw [hseen] at hrecords
        exact .cons_right hrecords
      · rw [recordsOf_append, hnone, ← hc]
        exact hleads
      · rw [hwrites, recordsOf_append, hnone, List.append_nil] at hchained
        rw [recordsOf_append, hnone]
        exact hchained
    · obtain ⟨ws', c, hwrites', hlines', hrecords, hleads, hend, hchained'⟩ := ih h
      refine ⟨.execution r :: ws', c, ?_, ?_, ?_, ?_, hend, ?_⟩
      · rw [hwrites', hwrites, List.append_assoc]
        rfl
      · exact List.forall_mem_cons.mpr ⟨trivial, hlines'⟩
      · refine .cons hnew ?_
        rw [hseen] at hrecords
        exact List.SublistForall₂.rec (motive := fun rs qs _ =>
          List.SublistForall₂ (ExecutionRecord.New P cycleId b.seenIds) rs qs) .nil
          (fun hr _ ih => .cons hr.of_seen ih) (fun _ ih => .cons_right ih) hrecords
      · refine ⟨hprior, ?_⟩
        rw [hset] at hleads
        exact hleads
      · intro hstart
        rw [hwrites, recordsOf_append] at hchained'
        have := hchained' (hchained hstart)
        rw [List.append_assoc] at this
        exact this

/-- What is known of the lines that a cycle writes, and of the entries that it ends with. -/
structure Cycle (P : Platform) (rdpLedger : List Proposal) (s : Store) (cycleId : Str)
    (ws : List Write) (c : List (Str × Entry)) : Prop where
  lines : ∀ w ∈ ws, w.IsLine
  records : List.SublistForall₂ (ExecutionRecord.New P cycleId (seenExecutionIds s.executions))
    (recordsOf ws) (loadAcceptedProposals rdpLedger)
  leads : Leads ExecutionRecord.change s.invariants (recordsOf ws) c
  chained : Chained P s.executions → Chained P (s.executions ++ recordsOf ws)

theorem invariants_loadConstitution : (loadConstitution s e).invariants = s.invariants := by
  unfold loadConstitution Store.invariants
  cases s.constitution <;> rfl

theorem execute_spec {rdpLedger : List Proposal} {id : Option Str}
    {reply : Except Exc ExecutionCycleResult} {writes : List Write}
    (h : execute P x rdpLedger s e id = (reply, writes)) :
    ∃ ws c, Cycle P rdpLedger s (newCycleId id e) ws c ∧
      ((∃ exc, reply = .error exc) ∧ writes = ws ∨
        ∃ r constitution snapshot, reply = .ok r ∧ constitution.invariants = c ∧
          writes = ws ++ [.temporary constitution, .replace, .snapshot snapshot]) := by
  unfold execute at h
  by_cases hverify : verifyChain P s.executions = false
  · simp only [if_pos hverify] at h
    obtain ⟨rfl, rfl⟩ := Prod.mk.inj h
    refine ⟨[], _, ⟨fun w hw => absurd hw List.not_mem_nil, .nil, rfl, fun hchained => ?_⟩,
      .inl ⟨⟨_, rfl⟩, rfl⟩⟩
    rwa [show recordsOf [] = [] from rfl, List.append_nil]
  simp only [if_neg hverify] at h
  rcases hloop : executeProposals P x s (newCycleId id e) e.draws (loadAcceptedProposals rdpLedger)
      { constitution := loadConstitution s e, seenIds := seenExecutionIds s.executions } with ⟨res, b⟩
  obtain ⟨ws, c, hwrites, hlines, hrecords, hleads, hend, hchained⟩ := executeProposals_spec hloop
  rw [invariants_loadConstitution] at hleads
  have hcycle : Cycle P rdpLedger s (newCycleId id e) ws c :=
    ⟨hlines, hrecords, hleads, fun hstart => hchained (by
      rwa [show recordsOf [] = [] from rfl, List.append_nil])⟩
  rw [hloop] at h
  cases res with
  | error exc =>
    obtain ⟨rfl, rfl⟩ := Prod.mk.inj h
    exact ⟨ws, c, hcycle, .inl ⟨⟨_, rfl⟩, hwrites⟩⟩
  | ok _ =>
    obtain ⟨rfl, rfl⟩ := Prod.mk.inj h
    exact ⟨ws, c, hcycle, .inr ⟨_, _, _, rfl, hend rfl, by rw [hwrites, List.nil_append]⟩⟩

/-! ### A cycle with one proposal -/

theorem executeProposal_of_new {id hash : Str} {c' : Constitution} {prior : Option Entry}
    {post : Entry} (hself : isSelfReferential p.invariantId = false)
    (hid : executionId P (p.proposalId.getD d.proposalUuid) cycleId = .ok id)
    (hunseen : id ∉ b.seenIds) (happly : applyAmendment b.constitution p d = .ok (c', prior, post))
    (hhash : chainHash P x.execLedger
      ((s.executions ++ recordsOf b.writes).map ExecutionRecord.hmacChainHash)
      (execRecord p (p.proposalId.getD d.proposalUuid) id prior post d).payload = .ok hash) :
    executeProposal P x s cycleId d p b = (.ok (), { b with
      constitution := c'
      writes := b.writes ++ [.execution { execRecord p (p.proposalId.getD d.proposalUuid) id prior
        post d with hmacChainHash := hash }]
      seenIds := id :: b.seenIds
      executed := b.executed + 1 }) := by
  unfold executeProposal
  rw [if_neg (ne_true_of_eq_false hself)]
  simp only [hid, if_neg hunseen, happly]
  rw [executions_after, hhash]

theorem executeProposal_of_seen {id : Str} (hself : isSelfReferential p.invariantId = false)
    (hid : executionId P (p.proposalId.getD d.proposalUuid) cycleId = .ok id)
    (hseen : id ∈ b.seenIds) :
    executeProposal P x s cycleId d p b = (.ok (), { b with skipped := b.skipped + 1 }) := by
  unfold executeProposal
  rw [if_neg (ne_true_of_eq_false hself)]
  simp only [hid, if_pos hseen]

theorem execute_of_turn {rdpLedger : List Proposal} {id : Option Str}
    (hverify : verifyChain P s.executions = true) (hload : loadAcceptedProposals rdpLedger = [p])
    (hturn : executeProposal P x s (newCycleId id e) (e.draws 0) p
      { constitution := loadConstitution s e, seenIds := seenExecutionIds s.executions } =
        (.ok (), b)) :
    (execute P x rdpLedger s e id).2 =
      b.writes ++ [.temporary b.constitution, .replace,
        .snapshot (newSnapshot P b.constitution e)] := by
  unfold execute
  rw [if_neg (ne_false_of_eq_true hverify)]
  simp only [hload, executeProposals, hturn]
/-! ### Stops -/

theorem done_cases (stop : Option Nat) (hlines : ∀ w ∈ ws, w.IsLine) (c : Constitution)
    (snapshot : Snapshot) :
    let done := Writes.done stop (ws ++ [.temporary c, .replace, .snapshot snapshot])
    (.replace ∉ done ∧ recordsOf done <+: recordsOf ws) ∨
      (.replace ∈ done ∧ recordsOf done = recordsOf ws ∧
        ∀ s, (Writes.after Store.write s done).constitution = some c) := by
  intro done
  rcases Writes.done_cases stop ws (.temporary c) .replace [.snapshot snapshot] with hinitial |
    ⟨rest, hrest, heq⟩
  · refine .inl ⟨fun hmem => ?_, ?_⟩
    · rcases List.mem_append.mp (hinitial.subset hmem) with hmem | hmem
      · exact replace_notMem_of_lines hlines hmem
      · cases List.mem_singleton.mp hmem
    · have := hinitial.filterMap Write.record?
      rwa [← recordsOf, ← recordsOf, recordsOf_append, show recordsOf [.temporary c] = [] from rfl,
        List.append_nil] at this
  · rw [show done = _ from heq]
    refine .inr ⟨?_, ?_, fun s => ?_⟩
    · exact List.mem_append_right ws (List.mem_cons_of_mem _ List.mem_cons_self)
    · rw [recordsOf_append]
      rcases List.prefix_cons_iff.mp hrest with rfl | ⟨_, rfl, hnil⟩
      · exact List.append_nil _
      · rw [List.prefix_nil.mp hnil]
        exact List.append_nil _
    · rw [Writes.after_append]
      rcases List.prefix_cons_iff.mp hrest with rfl | ⟨_, rfl, hnil⟩
      · rfl
      · rw [List.prefix_nil.mp hnil]
        rfl

namespace World

variable {w : World} {c : Call}

/-- What a call makes of the files: the records that it has written are a beginning of those of its
cycle, and the entries are as before; or it has written them all, and the entries are those that the
cycle ends with. -/
theorem store_step (w : World) (c : Call) :
    ∃ ws entries, Cycle P w.rdpLedger w.store c.cycle ws entries ∧
      (w.step P x (.execute c)).store.executions =
        w.store.executions ++ recordsOf (w.done P x c) ∧
      (.replace ∉ w.done P x c ∧ recordsOf (w.done P x c) <+: recordsOf ws ∧
          (w.step P x (.execute c)).store.invariants = w.store.invariants ∨
        .replace ∈ w.done P x c ∧ recordsOf (w.done P x c) = recordsOf ws ∧
          (w.step P x (.execute c)).store.invariants = entries) := by
  rcases hattempt : w.attempt P x c with ⟨reply, writes⟩
  obtain ⟨ws, entries, hcycle, hcases⟩ := execute_spec hattempt
  have hdone : w.done P x c = Writes.done c.stop writes := by
    rw [World.done, hattempt]
  refine ⟨ws, entries, hcycle, executions_after _ _, ?_⟩
  rcases hcases with ⟨-, rfl⟩ | ⟨r, constitution, snapshot, -, rfl, rfl⟩
  · have hinitial := Writes.done_prefix c.stop writes
    have hnot : .replace ∉ w.done P x c := fun hmem =>
      replace_notMem_of_lines hcycle.lines (hinitial.subset (hdone ▸ hmem))
    refine .inl ⟨hnot, ?_, ?_⟩
    · rw [hdone]
      exact hinitial.filterMap Write.record?
    · show Store.invariants (Writes.after Store.write w.store (w.done P x c)) = _
      rw [Store.invariants, constitution_after hnot, Store.invariants]
  · rcases done_cases c.stop hcycle.lines constitution snapshot with ⟨hnot, hinitial⟩ |
      ⟨hmem, heq, hafter⟩
    · rw [← hdone] at hnot hinitial
      refine .inl ⟨hnot, hinitial, ?_⟩
      show Store.invariants (Writes.after Store.write w.store (w.done P x c)) = _
      rw [Store.invariants, constitution_after hnot, Store.invariants]
    · rw [← hdone] at hmem heq hafter
      refine .inr ⟨hmem, heq, ?_⟩
      show Store.invariants (Writes.after Store.write w.store (w.done P x c)) = _
      rw [Store.invariants, hafter]
      rfl

theorem chained_step (h : Chained P w.store.executions) :
    Chained P (w.step P x (.execute c)).store.executions := by
  obtain ⟨ws, entries, hcycle, hexecutions, hcases⟩ := store_step (x := x) w c
  have hinitial : recordsOf (w.done P x c) <+: recordsOf ws := by
    rcases hcases with ⟨-, hinitial, -⟩ | ⟨-, heq, -⟩
    · exact hinitial
    · exact heq ▸ List.prefix_rfl
  obtain ⟨rest, hrest⟩ := hinitial
  have hall := hcycle.chained h
  rw [← hrest, ← List.append_assoc] at hall
  rw [hexecutions]
  exact (Chain.linked_append.mp hall).1

theorem writes_of_new {id : Str} {c' : Constitution} {prior : Option Entry} {post : Entry}
    (hload : loadAcceptedProposals w.rdpLedger = [p])
    (hself : isSelfReferential p.invariantId = false) (hchained : Chained P w.store.executions)
    (hid : executionId P (p.proposalId.getD (c.env.draws 0).proposalUuid) c.cycle = .ok id)
    (hunseen : id ∉ seenExecutionIds w.store.executions)
    (happly : applyAmendment (loadConstitution w.store c.env) p (c.env.draws 0) =
      .ok (c', prior, post)) :
    ∃ hash, (w.attempt P x c).2 =
      [.execution { execRecord p (p.proposalId.getD (c.env.draws 0).proposalUuid) id prior post
          (c.env.draws 0) with hmacChainHash := hash },
        .temporary c', .replace, .snapshot (newSnapshot P c' c.env)] := by
  obtain ⟨hash, hhash, -⟩ := @exists_chainHash P x.execLedger _
    (execRecord p (p.proposalId.getD (c.env.draws 0).proposalUuid) id prior post
      (c.env.draws 0)).payload (ne_nil_of_linked hchained)
  refine ⟨hash, ?_⟩
  have hturn := executeProposal_of_new (x := x) (s := w.store)
    (b := { constitution := loadConstitution w.store c.env
            seenIds := seenExecutionIds w.store.executions }) hself hid hunseen happly
    (by rwa [show recordsOf [] = [] from rfl, List.append_nil])
  exact execute_of_turn hchained.verifyChain hload hturn

theorem writes_of_seen {id : Str} (hload : loadAcceptedProposals w.rdpLedger = [p])
    (hself : isSelfReferential p.invariantId = false) (hchained : Chained P w.store.executions)
    (hid : executionId P (p.proposalId.getD (c.env.draws 0).proposalUuid) c.cycle = .ok id)
    (hseen : id ∈ seenExecutionIds w.store.executions) :
    (w.attempt P x c).2 =
      [.temporary (loadConstitution w.store c.env), .replace,
        .snapshot (newSnapshot P (loadConstitution w.store c.env) c.env)] :=
  execute_of_turn hchained.verifyChain hload
    (executeProposal_of_seen (x := x) (s := w.store)
      (b := { constitution := loadConstitution w.store c.env
              seenIds := seenExecutionIds w.store.executions }) hself hid hseen)

end World

end Adaad.AmendmentExecutor
