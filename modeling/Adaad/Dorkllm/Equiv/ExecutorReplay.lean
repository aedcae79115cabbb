import Adaad.Dorkllm.Equiv.ExecutorCycle
import Adaad.Py.Reference

/-!
# Amendments that are executed once

The check for a replay compares identifiers that are made of the proposal and of the cycle.  In a
run in which a proposal that the ledger has a record of is met again only in a cycle that gives it an
identifier of the ledger, each proposal is executed once (`World.appliedOnce_of_sameCycle`).  A
second cycle executes it again (`World.not_always_appliedOnce`).
-/

namespace Adaad.AmendmentExecutor

open Py Run EntryLog

variable {P : Platform} {x : Executor} {cycleId : Str} {ws : List Write}

namespace World

variable {w : World} {c : Call}

/-- The accepted proposals have identifiers, and no two have the same. -/
def Distinct (rdpLedger : List Proposal) : Prop :=
  ((loadAcceptedProposals rdpLedger).map Proposal.proposalId).Nodup ∧
    ∀ p ∈ loadAcceptedProposals rdpLedger, p.proposalId ≠ none

/-- Every accepted proposal is executed at most once, and no other proposal is. -/
structure AppliedOnce (w : World) : Prop where
  /-- No two records of the ledger are of one proposal. -/
  recorded : (w.store.executions.map ExecutionRecord.proposalId).Nodup
  /-- The constitution is made of the changes that some of the records tell of, one after the
  other. -/
  applied : ∃ rs, rs.Sublist w.store.executions ∧
    Leads ExecutionRecord.change [] rs w.store.invariants
  /-- Every record is of a proposal that is accepted, names the governor and is about an invariant
  of others. -/
  accepted : ∀ r ∈ w.store.executions, ∃ p ∈ w.rdpLedger, p.disposition = some (str "ACCEPTED") ∧
    p.proposalId = some r.proposalId ∧ r.Of p

variable (P) in
/-- An accepted proposal that the ledger has a record of is met again in a cycle that gives it an
identifier of the ledger. -/
def SameCycle (w : World) : Action → Prop
  | .dispose _ => True
  | .execute c =>
    ∀ p ∈ loadAcceptedProposals w.rdpLedger, ∀ id, p.proposalId = some id →
      id ∈ w.store.executions.map ExecutionRecord.proposalId →
      ∃ r ∈ w.store.executions, executionId P id c.cycle = .ok r.executionId

variable {records : List Proposal}

theorem Distinct.of_append {rdpLedger : List Proposal} (h : Distinct (rdpLedger ++ records)) :
    Distinct rdpLedger := by
  have hsub : (loadAcceptedProposals rdpLedger).Sublist
      (loadAcceptedProposals (rdpLedger ++ records)) := (List.sublist_append_left _ _).filter _
  exact ⟨h.1.sublist (hsub.map _), fun p hp => h.2 p (hsub.subset hp)⟩

theorem executionId_ne_nil {proposalId id : Str} (h : executionId P proposalId cycleId = .ok id) :
    id ≠ [] := by
  obtain ⟨digest, hdigest, rfl⟩ := map_eq_ok.mp h
  unfold sha256 at hdigest
  split at hdigest
  · cases hdigest
  · rw [← Except.ok.inj hdigest]
    intro hnil
    have hlength := congrArg List.length hnil
    rw [List.length_take, P.length_sha256] at hlength
    cases hlength

theorem mem_seenExecutionIds {r : ExecutionRecord} {ledger : List ExecutionRecord} {proposalId : Str}
    (hr : r ∈ ledger) (h : executionId P proposalId cycleId = .ok r.executionId) :
    r.executionId ∈ seenExecutionIds ledger :=
  List.mem_filter.mpr ⟨List.mem_map_of_mem hr, decide_eq_true (executionId_ne_nil h)⟩

theorem nodup_append_records {entries : List (Str × Entry)}
    (hcycle : Cycle P w.rdpLedger w.store c.cycle ws entries) (hdistinct : Distinct w.rdpLedger)
    (hsame : w.SameCycle P (.execute c)) (hw : AppliedOnce w) :
    ((w.store.executions ++ recordsOf ws).map ExecutionRecord.proposalId).Nodup := by
  have hsome : ∀ r : ExecutionRecord, ∀ p ∈ loadAcceptedProposals w.rdpLedger,
      r.New P c.cycle (seenExecutionIds w.store.executions) p →
      some r.proposalId = p.proposalId := by
    intro r p hp hnew
    obtain ⟨id, hid⟩ := Option.ne_none_iff_exists'.mp (hdistinct.2 p hp)
    rw [hid, hnew.proposalId id hid]
  have hnew : ((recordsOf ws).map ExecutionRecord.proposalId).Nodup := by
    have hsub := sublist_map_of_sublistForall₂
      (f := fun r : ExecutionRecord => some r.proposalId) hcycle.records hsome
    refine List.Nodup.of_map some ?_
    rw [List.map_map]
    exact hdistinct.1.sublist hsub
  rw [List.map_append]
  refine hw.recorded.append hnew fun id hold hid => ?_
  obtain ⟨r, hr, rfl⟩ := List.mem_map.mp hid
  obtain ⟨p, hp, hrp⟩ := exists_of_sublistForall₂ hcycle.records r hr
  obtain ⟨r', hr', hr'id⟩ := hsame p hp r.proposalId (hsome r p hp hrp).symm hold
  have heq : r'.executionId = r.executionId :=
    Except.ok.inj (hr'id.symm.trans hrp.executionId)
  exact hrp.unseen (heq ▸ mem_seenExecutionIds hr' hr'id)

theorem appliedOnce_step {a : Action} (hw : Distinct w.rdpLedger → AppliedOnce w)
    (hsame : w.SameCycle P a) (hdistinct : Distinct (w.step P x a).rdpLedger) :
    AppliedOnce (w.step P x a) := by
  cases a with
  | dispose records =>
    have hw := hw hdistinct.of_append
    refine ⟨hw.recorded, hw.applied, fun r hr => ?_⟩
    obtain ⟨p, hp, hrest⟩ := hw.accepted r hr
    exact ⟨p, List.mem_append_left records hp, hrest⟩
  | execute c =>
    have hdistinct : Distinct w.rdpLedger := hdistinct
    have hw := hw hdistinct
    obtain ⟨ws, entries, hcycle, hexecutions, hcases⟩ := store_step (x := x) w c
    have hinitial : recordsOf (w.done P x c) <+: recordsOf ws := by
      rcases hcases with ⟨-, hinitial, -⟩ | ⟨-, heq, -⟩
      · exact hinitial
      · exact heq ▸ List.prefix_rfl
    refine ⟨?_, ?_, fun r hr => ?_⟩
    · rw [hexecutions]
      exact (nodup_append_records hcycle hdistinct hsame hw).sublist
        (((hinitial.sublist).append_left _).map _)
    · obtain ⟨rs, hrs, hleads⟩ := hw.applied
      rw [hexecutions]
      rcases hcases with ⟨-, -, hsame⟩ | ⟨-, heq, hnew⟩
      · rw [hsame]
        exact ⟨rs, hrs.trans (List.sublist_append_left _ _), hleads⟩
      · rw [heq, hnew]
        exact ⟨rs ++ recordsOf ws, hrs.append_right _, leads_append.mpr ⟨_, hleads, hcycle.leads⟩⟩
    · rw [hexecutions] at hr
      rcases List.mem_append.mp hr with hr | hr
      · exact hw.accepted r hr
      · obtain ⟨p, hp, hnew⟩ := exists_of_sublistForall₂ hcycle.records r (hinitial.subset hr)
        obtain ⟨hmem, haccepted⟩ := List.mem_filter.mp hp
        obtain ⟨id, hid⟩ := Option.ne_none_iff_exists'.mp (hdistinct.2 p hp)
        refine ⟨p, hmem, of_decide_eq_true haccepted, ?_, hnew.toOf⟩
        rw [hid, hnew.proposalId id hid]

theorem appliedOnce_new : AppliedOnce {} :=
  ⟨List.nodup_nil, ⟨[], List.Sublist.refl _, rfl⟩, fun _ hr => absurd hr List.not_mem_nil⟩

/-- From empty files, where no cycle meets a proposal again that was executed in another one, every
accepted proposal is executed at most once. -/
theorem appliedOnce_of_sameCycle {as : List Action}
    (h : Meets (World.step P x) (World.SameCycle P) {} as) :
    Always (World.step P x) (fun w => Distinct w.rdpLedger → AppliedOnce w) {} as :=
  always_of_step (fun _ _ hw hsame => appliedOnce_step hw hsame) (fun _ => appliedOnce_new) h

/-! ### A proposal that is met in two cycles -/

def acceptedProposal : Proposal where
  proposalId := some (str "prop-1")
  invariantId := str "STABLE-INV-0"
  disposition := some (str "ACCEPTED")
  tier := some (str "REINFORCE")
  action := none
  rationale := str "Strengthen invariant weight"
  governor := AmendmentExecutor.governor

def someEnv : Env where
  cycleUuid := str "5f0c"
  createdAt := str "2026-05-10T00:00:00+00:00"
  snapshotAt := str "2026-05-10T00:00:00+00:00"
  completedAt := str "2026-05-10T00:00:00+00:00"
  draws _ := ⟨str "2026-05-10T00:00:00+00:00", str "2026-05-10T00:00:00+00:00",
    str "2026-05-10T00:00:00+00:00", str "77aa", str "31b2"⟩

def callFor (cycleId : Str) : Call :=
  ⟨someEnv, some cycleId, none⟩

theorem distinct_accepted : Distinct [acceptedProposal] :=
  ⟨by decide, by decide⟩

def oneCycle (P : Platform) (x : Executor) : World :=
  run (World.step P x) {} [.dispose [acceptedProposal], .execute (callFor (str "cycle-1"))]

theorem oneCycle_spec {id : Str} (hid : executionId P (str "prop-1") (str "cycle-1") = .ok id) :
    Chained P (oneCycle P x).store.executions ∧
      (oneCycle P x).store.executions.map ExecutionRecord.proposalId = [str "prop-1"] ∧
      (oneCycle P x).store.executions.map ExecutionRecord.executionId = [id] ∧
      ∃ r, applyAmendment (loadConstitution (oneCycle P x).store someEnv) acceptedProposal
        (someEnv.draws 0) = .ok r := by
  let w : World := World.step P x {} (.dispose [acceptedProposal])
  obtain ⟨hash, hwrites⟩ := @writes_of_new P x acceptedProposal w (callFor (str "cycle-1")) id _ _ _
    rfl rfl trivial hid List.not_mem_nil rfl
  have hstore : (oneCycle P x).store = Writes.after Store.write {} _ :=
    congrArg (Writes.after Store.write {}) hwrites
  refine ⟨chained_step trivial, ?_, ?_, ?_⟩
  · rw [hstore]
    rfl
  · rw [hstore]
    rfl
  · rw [hstore]
    exact ⟨_, rfl⟩

theorem executions_of_two_cycles
    (hne : executionId P (str "prop-1") (str "cycle-2") ≠
      executionId P (str "prop-1") (str "cycle-1")) :
    (run (World.step P x) {} [.dispose [acceptedProposal], .execute (callFor (str "cycle-1")),
      .execute (callFor (str "cycle-2"))]).store.executions.map ExecutionRecord.proposalId =
      [str "prop-1", str "prop-1"] := by
  obtain ⟨id, hid⟩ : ∃ id, executionId P (str "prop-1") (str "cycle-1") = .ok id := ⟨_, rfl⟩
  obtain ⟨id', hid'⟩ : ∃ id', executionId P (str "prop-1") (str "cycle-2") = .ok id' := ⟨_, rfl⟩
  obtain ⟨hchained, hproposals, hids, ⟨c', prior, post⟩, happly⟩ := oneCycle_spec (x := x) hid
  have hunseen : id' ∉ seenExecutionIds (oneCycle P x).store.executions := by
    intro hmem
    have hmem := (List.mem_filter.mp hmem).1
    rw [hids] at hmem
    exact hne (by rw [hid, hid', List.mem_singleton.mp hmem])
  obtain ⟨hash, hwrites⟩ := @writes_of_new P x acceptedProposal (oneCycle P x)
    (callFor (str "cycle-2")) id' _ _ _ rfl rfl hchained hid' hunseen happly
  show (Writes.after Store.write (oneCycle P x).store
    ((oneCycle P x).attempt P x (callFor (str "cycle-2"))).2).executions.map _ = _
  rw [executions_after, hwrites, List.map_append, hproposals]
  rfl

/-- Not every run executes an accepted proposal at most once: two cycles execute one each. -/
theorem not_always_appliedOnce :
    ¬ ∀ as : List Action, Always (World.step reference .default)
      (fun w => Distinct w.rdpLedger → AppliedOnce w) {} as := by
  intro h
  have hlast := (h [.dispose [acceptedProposal], .execute (callFor (str "cycle-1")),
    .execute (callFor (str "cycle-2"))]).last
  have honce := (hlast distinct_accepted).recorded
  rw [executions_of_two_cycles (by decide +kernel)] at honce
  exact absurd honce (by decide)

theorem sameCycle_oneCycle {id : Str} (hid : executionId P (str "prop-1") (str "cycle-1") = .ok id) :
    (oneCycle P x).SameCycle P (.execute (callFor (str "cycle-1"))) := by
  intro p hp proposalId hproposalId _
  obtain rfl : p = acceptedProposal := List.mem_singleton.mp hp
  obtain rfl : str "prop-1" = proposalId := Option.some.inj hproposalId
  have hids := (oneCycle_spec (x := x) hid).2.2.1
  obtain ⟨r, hr, hrid⟩ := List.mem_map.mp (hids ▸ List.mem_singleton_self id)
  exact ⟨r, hr, hrid ▸ hid⟩

/-- A second call for the same cycle. -/
theorem appliedOnce_of_sameCycle_twice :
    Always (World.step reference .default) (fun w => Distinct w.rdpLedger → AppliedOnce w) {}
      [.dispose [acceptedProposal], .execute (callFor (str "cycle-1")),
        .execute (callFor (str "cycle-1"))] := by
  exact appliedOnce_of_sameCycle ⟨trivial, fun p _ id _ hid => absurd hid List.not_mem_nil,
    sameCycle_oneCycle rfl, trivial⟩

end World

end Adaad.AmendmentExecutor

/-!
## The constitution and the ledger of the amendment executor

In a run in which no call stops, or raises, between its first record and the rename of the
constitution, the constitution is after every cycle what the ledger says, and each record tells
what the one before it left (`World.consistent_of_whole`).  A process that stops in between leaves
records of changes that are in no constitution, and a retry of the cycle skips them
(`World.not_always_consistent`).

A cycle that is not stopped completes, whichever runs came before it, unless an identifier cannot be
encoded (`World.always_completes`).
-/

namespace Adaad.AmendmentExecutor

open Py Run EntryLog

variable {P : Platform} {x : Executor} {s : Store} {cycleId : Str} {d : Draws} {p : Proposal}
  {ps : List Proposal} {b : Batch} {ws : List Write}

/-! ### Consistency -/

/-- The constitution is what the last records say, and each record says that the entry was what the
record before it says. -/
structure Store.Consistent (s : Store) : Prop where
  live : ∀ id ∈ s.executions.map ExecutionRecord.invariantId,
    s.invariants.lookup id = lastPost ExecutionRecord.change s.executions id
  prior : ∀ rs r rs', s.executions = rs ++ r :: rs' →
    r.priorState = lastPost ExecutionRecord.change rs r.invariantId

/-- The records lead from nothing to the constitution. -/
def Store.Kept (s : Store) : Prop :=
  Leads ExecutionRecord.change [] s.executions s.invariants

theorem Store.Kept.consistent (h : s.Kept) : s.Consistent where
  live id _ := lookup_of_leads h id
  prior rs r rs' heq := by
    rw [Store.Kept, heq] at h
    exact prior_of_leads h

/-! ### Completion -/

/-- The records of both ledgers have hashes. -/
structure Hashed (s : Store) : Prop where
  executions : ∀ hash ∈ s.executions.map ExecutionRecord.hmacChainHash, hash ≠ []
  rejections : ∀ hash ∈ s.rejections.map RejectedAmendment.hmacChainHash, hash ≠ []

def Write.Hashed : Write → Prop
  | .rejection r => r.hmacChainHash ≠ []
  | .execution r => r.hmacChainHash ≠ []
  | _ => True

theorem forall_mem_map_concat {α : Type} {f : α → Str} {rs : List α} {r : α}
    (h : ∀ hash ∈ rs.map f, hash ≠ []) (hr : f r ≠ []) : ∀ hash ∈ (rs ++ [r]).map f, hash ≠ [] := by
  intro hash hhash
  rw [List.map_append, List.mem_append] at hhash
  rcases hhash with hhash | hhash
  · exact h hash hhash
  · rw [List.mem_singleton.mp hhash]
    exact hr

theorem Hashed.write {w : Write} (h : Hashed s) (hw : w.Hashed) : Hashed (s.write w) := by
  cases w with
  | rejection r => exact ⟨h.executions, forall_mem_map_concat h.rejections hw⟩
  | execution r => exact ⟨forall_mem_map_concat h.executions hw, h.rejections⟩
  | _ => exact ⟨h.executions, h.rejections⟩

theorem Hashed.after (h : Hashed s) (hws : ∀ w ∈ ws, w.Hashed) :
    Hashed (Writes.after Store.write s ws) :=
  Writes.after_of_forall (fun _ _ hs hw => hs.write hw) h hws

variable (P) in
/-- The identifier of an execution of the proposal can be computed. -/
def Identified (cycleId : Str) (d : Draws) (p : Proposal) : Prop :=
  ∃ id, executionId P (p.proposalId.getD d.proposalUuid) cycleId = .ok id

theorem executeProposal_hashed (hs : Hashed s) (hb : ∀ w ∈ b.writes, w.Hashed) :
    (∀ w ∈ (executeProposal P x s cycleId d p b).2.writes, w.Hashed) ∧
      (Identified P cycleId d p → (executeProposal P x s cycleId d p b).1 = .ok ()) := by
  have hfiles := hs.after hb
  have hconcat : ∀ {w : Write}, w.Hashed → ∀ w' ∈ b.writes ++ [w], w'.Hashed := by
    intro w hw w' hw'
    rcases List.mem_append.mp hw' with hw' | hw'
    · exact hb w' hw'
    · rw [List.mem_singleton.mp hw']
      exact hw
  unfold executeProposal
  by_cases hself : isSelfReferential p.invariantId = true
  · obtain ⟨hash, hhash, hne⟩ := @exists_chainHash P x.rejectedLog _
      (rejection p (p.proposalId.getD d.proposalUuid) d).payload hfiles.rejections
    simp only [if_pos hself, hhash]
    exact ⟨hconcat hne, fun _ => trivial⟩
  simp only [if_neg hself]
  cases hid : executionId P (p.proposalId.getD d.proposalUuid) cycleId with
  | error exc =>
    refine ⟨hb, ?_⟩
    rintro ⟨id, hok⟩
    rw [hid] at hok
    cases hok
  | ok id =>
    simp only
    by_cases hseen : id ∈ b.seenIds
    · rw [if_pos hseen]
      exact ⟨hb, fun _ => rfl⟩
    rw [if_neg hseen]
    cases happly : applyAmendment b.constitution p d with
    | error message => exact ⟨hb, fun _ => rfl⟩
    | ok result =>
      obtain ⟨c', prior, post⟩ := result
      obtain ⟨hash, hhash, hne⟩ := @exists_chainHash P x.execLedger _
        (execRecord p (p.proposalId.getD d.proposalUuid) id prior post d).payload
        hfiles.executions
      simp only [hhash]
      exact ⟨hconcat hne, fun _ => trivial⟩

theorem executeProposals_hashed {draws : Nat → Draws} (hs : Hashed s)
    (hb : ∀ w ∈ b.writes, w.Hashed) :
    (∀ w ∈ (executeProposals P x s cycleId draws ps b).2.writes, w.Hashed) ∧
      ((∀ p ∈ ps, ∀ n, Identified P cycleId (draws n) p) →
        (executeProposals P x s cycleId draws ps b).1 = .ok ()) := by
  induction ps generalizing draws b with
  | nil => exact ⟨hb, fun _ => rfl⟩
  | cons p ps ih =>
    have hturns : (∀ w ∈ (executeProposal P x s cycleId (draws 0) p b).2.writes, w.Hashed) ∧
        (Identified P cycleId (draws 0) p →
          (executeProposal P x s cycleId (draws 0) p b).1 = .ok ()) :=
      executeProposal_hashed hs hb
    obtain ⟨hturn, hok⟩ := hturns
    rw [executeProposals]
    rcases hrun : executeProposal P x s cycleId (draws 0) p b with ⟨exc | ok, b'⟩
    · rw [hrun] at hturn hok
      refine ⟨hturn, fun hid => ?_⟩
      cases hok (hid p List.mem_cons_self 0)
    · rw [hrun] at hturn
      obtain ⟨hrest, hrestok⟩ := @ih b' (fun n => draws (n + 1)) hturn
      exact ⟨hrest, fun hid => hrestok fun q hq n => hid q (List.mem_cons_of_mem p hq) (n + 1)⟩

namespace World

variable {w : World} {c : Call}

variable (P) in
/-- The identifiers of the executions that the call may have to do can be computed. -/
def Completable (w : World) (c : Call) : Prop :=
  ∀ p ∈ loadAcceptedProposals w.rdpLedger, ∀ n, Identified P c.cycle (c.env.draws n) p

theorem attempt_hashed (hs : Hashed w.store) (hchained : Chained P w.store.executions) :
    (∀ w' ∈ (w.attempt P x c).2, w'.Hashed) ∧
      (w.Completable P c → ∃ r, (w.attempt P x c).1 = .ok r) := by
  have hloop : ∀ cycleId : Str, (∀ w' ∈ (executeProposals P x w.store cycleId c.env.draws
        (loadAcceptedProposals w.rdpLedger) { constitution := loadConstitution w.store c.env
                                              seenIds := seenExecutionIds w.store.executions }).2.writes,
        w'.Hashed) ∧
      ((∀ p ∈ loadAcceptedProposals w.rdpLedger, ∀ n, Identified P cycleId (c.env.draws n) p) →
        (executeProposals P x w.store cycleId c.env.draws (loadAcceptedProposals w.rdpLedger)
          { constitution := loadConstitution w.store c.env
            seenIds := seenExecutionIds w.store.executions }).1 = .ok ()) := fun cycleId =>
    executeProposals_hashed hs fun w' hw' => absurd hw' List.not_mem_nil
  obtain ⟨hwrites, hok⟩ := hloop c.cycle
  have hsnapshot : ∀ (ws : List Write) (constitution : Constitution) (snapshot : Snapshot),
      (∀ w' ∈ ws, w'.Hashed) →
      ∀ w' ∈ ws ++ [.temporary constitution, .replace, .snapshot snapshot], w'.Hashed := by
    intro ws constitution snapshot hws w' hw'
    rcases List.mem_append.mp hw' with hw' | hw'
    · exact hws w' hw'
    · simp only [List.mem_cons, List.not_mem_nil, or_false] at hw'
      rcases hw' with rfl | rfl | rfl <;> trivial
  unfold attempt AmendmentExecutor.execute
  rw [if_neg (ne_false_of_eq_true hchained.verifyChain)]
  simp only
  rw [Call.cycle] at hwrites hok
  rcases hrun : executeProposals P x w.store (newCycleId c.cycleId c.env) c.env.draws
      (loadAcceptedProposals w.rdpLedger) { constitution := loadConstitution w.store c.env
                                            seenIds := seenExecutionIds w.store.executions }
    with ⟨exc | ok, b⟩
  · rw [hrun] at hwrites hok
    refine ⟨hwrites, fun hid => ?_⟩
    cases hok hid
  · rw [hrun] at hwrites
    exact ⟨hsnapshot _ _ _ hwrites, fun _ => ⟨_, rfl⟩⟩

/-- The ledgers are as the executor writes them. -/
structure KeptLedgers (P : Platform) (w : World) : Prop where
  hashed : Hashed w.store
  chained : Chained P w.store.executions

theorem keptLedgers_new : KeptLedgers P {} :=
  ⟨⟨fun _ h => absurd h List.not_mem_nil, fun _ h => absurd h List.not_mem_nil⟩, trivial⟩

theorem KeptLedgers.step (h : KeptLedgers P w) (a : Action) : KeptLedgers P (w.step P x a) := by
  cases a with
  | dispose records => exact ⟨h.hashed, h.chained⟩
  | execute c =>
    refine ⟨h.hashed.after fun w' hw' => ?_, chained_step h.chained⟩
    exact (attempt_hashed h.hashed h.chained).1 w' ((Writes.done_prefix _ _).subset hw')

/-- After every run, a cycle that is not stopped completes, unless an identifier cannot be encoded. -/
theorem always_completes (as : List Action) :
    Always (World.step P x)
      (fun w => ∀ c, w.Completable P c → ∃ r, (w.attempt P x c).1 = .ok r) {} as := by
  refine (always_of_forall_step (fun w a (hw : KeptLedgers P w) => hw.step a) keptLedgers_new
    as).imp ?_
  intro w hw c
  exact (attempt_hashed hw.hashed hw.chained).2

/-! ### Runs -/

variable (P x) in
/-- The process does not stop, and the call does not raise, between the first record of the call and
the rename of the constitution. -/
def Whole (w : World) : Action → Prop
  | .dispose _ => True
  | .execute c => .replace ∈ w.done P x c ∨ recordsOf (w.done P x c) = []

theorem kept_step {a : Action} (hw : w.store.Kept) (h : w.Whole P x a) :
    (w.step P x a).store.Kept := by
  cases a with
  | dispose records => exact hw
  | execute c =>
    obtain ⟨ws, entries, hcycle, hexecutions, hcases⟩ := store_step (x := x) w c
    rw [Store.Kept, hexecutions]
    rcases hcases with ⟨hnot, -, hsame⟩ | ⟨-, heq, hnew⟩
    · rw [h.resolve_left hnot, hsame, List.append_nil]
      exact hw
    · rw [heq, hnew]
      exact leads_append.mpr ⟨_, hw, hcycle.leads⟩

/-- From empty files, where every call is whole, ledger and constitution agree after every completed
call. -/
theorem consistent_of_whole {as : List Action} (h : Meets (World.step P x) (World.Whole P x) {} as) :
    Always (World.step P x) (fun w => ∀ r, w.reply = some (.ok r) → w.store.Consistent) {} as := by
  have hkept : Always (World.step P x) (fun w => w.store.Kept) {} as :=
    always_of_step (fun _ _ hw hwhole => kept_step hw hwhole) rfl h
  exact hkept.imp fun _ hw _ _ => hw.consistent

/-! ### A stop between the ledger and the constitution -/

def stoppedCall : Call :=
  { callFor (str "cycle-1") with stop := some 1 }

/-- A process that stopped after the record of the first cycle, and the cycle again. -/
def stopAndRetry : List Action :=
  [.dispose [acceptedProposal], .execute stoppedCall, .execute (callFor (str "cycle-1"))]

theorem stopAndRetry_spec {id : Str} (hid : executionId P (str "prop-1") (str "cycle-1") = .ok id) :
    (∃ r, (run (World.step P x) {} stopAndRetry).reply = some (.ok r)) ∧
      (run (World.step P x) {} stopAndRetry).store.executions.map ExecutionRecord.invariantId =
        [str "STABLE-INV-0"] ∧
      (run (World.step P x) {} stopAndRetry).store.invariants = [] := by
  let w : World := World.step P x {} (.dispose [acceptedProposal])
  obtain ⟨hash, hwrites⟩ := @writes_of_new P x acceptedProposal w stoppedCall id _ _ _
    rfl rfl trivial hid List.not_mem_nil rfl
  let w' : World := w.step P x (.execute stoppedCall)
  have hkept : KeptLedgers P w' := (keptLedgers_new.step (.dispose [acceptedProposal])).step _
  have hstore : w'.store = Writes.after Store.write {} (List.take 1 _) :=
    congrArg (fun ws => Writes.after Store.write {} (List.take 1 ws)) hwrites
  have hseen : id ∈ seenExecutionIds w'.store.executions := by
    rw [hstore]
    exact List.mem_filter.mpr ⟨List.mem_singleton_self id, decide_eq_true (executionId_ne_nil hid)⟩
  have hretry := @writes_of_seen P x acceptedProposal w' (callFor (str "cycle-1")) id
    rfl rfl hkept.chained hid hseen
  have hcomplete : w'.Completable P (callFor (str "cycle-1")) := by
    intro p hp n
    obtain rfl := List.mem_singleton.mp hp
    exact ⟨id, hid⟩
  obtain ⟨r, hr⟩ := (attempt_hashed (x := x) hkept.hashed hkept.chained).2 hcomplete
  refine ⟨⟨r, ?_⟩, ?_, ?_⟩
  · show some (w'.attempt P x (callFor (str "cycle-1"))).1 = _
    rw [hr]
  · show (Writes.after Store.write w'.store
      (w'.attempt P x (callFor (str "cycle-1"))).2).executions.map _ = _
    rw [hretry, hstore]
    rfl
  · show Store.invariants (Writes.after Store.write w'.store
      (w'.attempt P x (callFor (str "cycle-1"))).2) = _
    rw [hretry, hstore]
    rfl

/-- Ledger and constitution need not agree after a completed call: a process stops after it has
written a record, and the retry skips the proposal. -/
theorem not_always_consistent :
    ¬ ∀ as : List Action, Always (World.step reference .default)
      (fun w => ∀ r, w.reply = some (.ok r) → w.store.Consistent) {} as := by
  intro h
  obtain ⟨⟨r, hr⟩, hids, hnil⟩ := stopAndRetry_spec (P := reference) (x := .default) rfl
  have hlive := ((h stopAndRetry).last r hr).live (str "STABLE-INV-0")
    (hids ▸ List.mem_singleton_self _)
  rw [hnil] at hlive
  refine lastPost_eq_none_iff.mp hlive.symm ?_
  exact hids ▸ List.mem_singleton_self (str "STABLE-INV-0")

/-- A cycle that is not stopped. -/
theorem consistent_of_whole_oneCycle :
    Always (World.step reference .default)
      (fun w => ∀ r, w.reply = some (.ok r) → w.store.Consistent) {}
      [.dispose [acceptedProposal], .execute (callFor (str "cycle-1"))] := by
  refine consistent_of_whole ⟨trivial, .inl ?_, trivial⟩
  obtain ⟨hash, hwrites⟩ := @writes_of_new reference .default acceptedProposal
    (World.step reference .default {} (.dispose [acceptedProposal])) (callFor (str "cycle-1")) _ _ _
    _ rfl rfl trivial rfl List.not_mem_nil rfl
  show .replace ∈ (attempt reference .default _ (callFor (str "cycle-1"))).2
  rw [hwrites]
  simp

end World

end Adaad.AmendmentExecutor
