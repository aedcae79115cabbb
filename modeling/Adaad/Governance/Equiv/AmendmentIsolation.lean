import Adaad.Governance.Equiv.AmendmentLifecycle

/-!
# Proposals beside each other

A vote changes no proposal but its own.  A new proposal changes none either, unless there is one of
the same second: this one is overwritten (`isolated_run_iff`).
-/

namespace Adaad.Amendment

open Py Method

def KeepsFiles (files files' : List (ProposalId × AmendmentProposal)) (ids : Set ProposalId) :
    Prop :=
  ∀ id ∈ ids, ∀ p, files.lookup id = some p → files'.lookup id = some p

variable (P : Platform) (c : Config)

/-- The call leaves the proposals that it is not about as they are, and a proposal that it returns
can be found under its id with its text and its votes. -/
def Isolated (w : World) : AmendmentCall → Prop
  | .propose now timestamp proposer newPolicyText rationale oldPolicyHash journalFails =>
    let call := AmendmentCall.propose now timestamp proposer newPolicyText rationale oldPolicyHash
      journalFails
    KeepsFiles w.proposals (w.step P c call).proposals Set.univ ∧
      ∀ p, (call.run P c w).1 = .ok p →
        ∃ q, (w.step P c call).proposals.lookup p.proposalId = some q ∧
          q.newPolicyText = p.newPolicyText ∧ q.approvals = p.approvals ∧
          q.rejections = p.rejections ∧ q.status = p.status
  | .approve id approver o =>
    KeepsFiles w.proposals (w.step P c (.approve id approver o)).proposals {i | i ≠ id}
  | .reject id rejector o =>
    KeepsFiles w.proposals (w.step P c (.reject id rejector o)).proposals {i | i ≠ id}

/-- No other proposal was written in the same second, if the new one is written. -/
def Distinct (w : World) : AmendmentCall → Prop
  | .propose now timestamp proposer newPolicyText rationale oldPolicyHash _ =>
    ∀ hash, textHash P newPolicyText = some hash → ∀ q, w.proposals.lookup now = some q →
      q = (newProposal now timestamp proposer newPolicyText rationale oldPolicyHash hash).reread
  | .approve _ _ _ | .reject _ _ _ => True

variable {P c} {start : Str} {w : World}

/-! ### Votes -/

/-- Whatever the method returns or raises, the files are as before. -/
def KeepsProposals {α : Type} (m : AmendmentMethod α) : Prop :=
  ∀ w, (Method.run m w).2.proposals = w.proposals

theorem KeepsProposals.bind {α β : Type} {m : AmendmentMethod α} {f : α → AmendmentMethod β}
    (h : KeepsProposals m) (hf : ∀ a, KeepsProposals (f a)) : KeepsProposals (m >>= f) := by
  intro w
  have hm := h w
  rw [run_bind]
  rcases hrun : Method.run m w with ⟨e | a, w'⟩ <;> rw [hrun] at hm
  · exact hm
  · exact (hf a w').trans hm

theorem keepsProposals_pure {α : Type} (a : α) : KeepsProposals (pure a) := fun _ => rfl

theorem keepsProposals_ofExcept {α : Type} (x : Except AmendmentError α) :
    KeepsProposals (Method.ofExcept x) := fun _ => rfl

theorem keepsProposals_writeOutside (o : Outside) (what : Write) :
    KeepsProposals (writeOutside o what) := fun _ => rfl

theorem keepsProposals_appendTransition (o : Outside) (phase : Phase) (state : Str)
    (p : AmendmentProposal) : KeepsProposals (appendTransition o phase state p) :=
  (keepsProposals_writeOutside o _).bind fun _ => keepsProposals_pure _

theorem keepsProposals_reloadPolicy (o : Outside) (p : AmendmentProposal) :
    KeepsProposals (reloadPolicy P o p) := by
  have hset : ∀ hash, KeepsProposals (setPolicy p hash) := fun _ _ => rfl
  unfold reloadPolicy
  cases o.reload with
  | refused => exact keepsProposals_ofExcept _
  | usual hash =>
    cases hash with
    | none => exact keepsProposals_ofExcept _
    | some hash => exact (hset hash).bind fun _ => keepsProposals_pure _
  | loaded =>
    dsimp only
    cases textHash P (universalNewlines p.newPolicyText) with
    | none => exact keepsProposals_ofExcept _
    | some hash => exact (hset hash).bind fun _ => keepsProposals_pure _

theorem keepsProposals_effectuateAmendment (o : Outside) (p : AmendmentProposal) :
    KeepsProposals (effectuateAmendment P o p) := by
  have hstate : KeepsProposals (Method.state : AmendmentMethod World) := fun _ => rfl
  unfold effectuateAmendment
  refine hstate.bind fun v => ?_
  split_ifs
  · exact (keepsProposals_writeOutside o _).bind fun _ => keepsProposals_pure _
  · refine (keepsProposals_reloadPolicy o p).bind fun newHash => ?_
    split_ifs
    · exact keepsProposals_ofExcept _
    · exact (keepsProposals_writeOutside o _).bind fun _ => keepsProposals_pure _

theorem keepsProposals_runPipeline (o : Outside) (p : AmendmentProposal) :
    KeepsProposals (runPipeline P c o p) := by
  unfold runPipeline
  split_ifs
  · exact keepsProposals_pure p
  unfold runPhases
  refine (keepsProposals_appendTransition o _ _ _).bind fun q => ?_
  cases o.simulation with
  | none => exact keepsProposals_ofExcept _
  | some ok =>
    refine (keepsProposals_appendTransition o _ _ _).bind fun q => ?_
    split_ifs
    · exact keepsProposals_pure _
    dsimp only
    refine (keepsProposals_appendTransition o _ _ _).bind fun r => ?_
    split_ifs
    · exact (keepsProposals_appendTransition o _ _ _).bind fun _ => keepsProposals_pure _
    · refine (keepsProposals_effectuateAmendment o r).bind fun _ => ?_
      exact (keepsProposals_appendTransition o _ _ _).bind fun _ =>
        (keepsProposals_appendTransition o _ _ _).bind fun _ => keepsProposals_pure _
    · exact keepsProposals_pure _

theorem keepsProposals_recordReviewQuality (o : Outside) (reviewer : Str) :
    KeepsProposals (recordReviewQuality o reviewer) := by
  unfold recordReviewQuality
  cases encode reviewer with
  | none => exact keepsProposals_ofExcept _
  | some b => exact keepsProposals_writeOutside o _

theorem keepsProposals_noteStatus (p : AmendmentProposal) : KeepsProposals (noteStatus p) := by
  unfold noteStatus
  split_ifs
  · exact fun _ => rfl
  · exact keepsProposals_pure _

theorem keepsProposals_writeRejection (o : Outside) (p : AmendmentProposal) :
    KeepsProposals (writeRejection o p) := by
  unfold writeRejection
  split_ifs
  · exact keepsProposals_writeOutside o _
  · exact keepsProposals_pure _

/-- In this world, the method changes no other file. -/
def ChangesOnly {α : Type} (id : ProposalId) (m : AmendmentMethod α) (w : World) : Prop :=
  ∀ i, i ≠ id → (Method.run m w).2.proposals.lookup i = w.proposals.lookup i

theorem KeepsProposals.changesOnly {α : Type} {m : AmendmentMethod α} (h : KeepsProposals m)
    (id : ProposalId) (w : World) : ChangesOnly id m w :=
  fun i _ => by rw [h w]

theorem ChangesOnly.bind {α β : Type} {id : ProposalId} {m : AmendmentMethod α}
    {f : α → AmendmentMethod β} (h : ChangesOnly id m w)
    (hf : ∀ a w', Method.run m w = (.ok a, w') → ChangesOnly id (f a) w') :
    ChangesOnly id (m >>= f) w := by
  intro i hi
  have hm := h i hi
  rw [run_bind]
  rcases hrun : Method.run m w with ⟨e | a, w'⟩ <;> rw [hrun] at hm
  · exact hm
  · exact (hf a w' hrun i hi).trans hm

theorem changesOnly_saveProposal (p : AmendmentProposal) (w : World) :
    ChangesOnly p.proposalId (saveProposal p) w := by
  intro i hi
  show (Assoc.set w.proposals p.proposalId p.reread).lookup i = _
  rw [Assoc.lookup_set, if_neg hi]

theorem run_loadProposal {id : ProposalId} {p : AmendmentProposal} {w' : World}
    (h : Method.run (loadProposal id) w = (.ok p, w')) :
    w' = w ∧ w.proposals.lookup id = some p := by
  unfold loadProposal at h
  rw [run_bind_of_ok (run_state w)] at h
  cases hlookup : w.proposals.lookup id with
  | none =>
    rw [hlookup] at h
    cases h
  | some q =>
    rw [hlookup] at h
    cases h
    exact ⟨rfl, rfl⟩

theorem keepsProposals_loadProposal (id : ProposalId) : KeepsProposals (loadProposal id) := by
  intro w
  unfold loadProposal
  rw [run_bind_of_ok (run_state w)]
  cases w.proposals.lookup id <;> rfl

theorem changesOnly_runPipeline {o : Outside} {p : AmendmentProposal}
    {f : AmendmentProposal → AmendmentMethod AmendmentProposal} (hw : Consistent c start w)
    (hp : Counted w.log p)
    (hf : ∀ q w', q.proposalId = p.proposalId → ChangesOnly p.proposalId (f q) w') :
    ChangesOnly p.proposalId (runPipeline P c o p >>= f) w := by
  refine ChangesOnly.bind ((keepsProposals_runPipeline o p).changesOnly _ _) fun q w' hq => ?_
  have hvotes : Consistent c start w' ∧ Counted w'.log q ∧ SameVotes p q :=
    (triple_runPipeline o p).of_ok ⟨hw, hp⟩ hq
  exact hf q w' hvotes.2.2.proposalId

theorem changesOnly_approveAmendment (hw : Consistent c start w) (id : ProposalId) (approver : Str)
    (o : Outside) : ChangesOnly id (approveAmendment P c id approver o) w := by
  unfold approveAmendment
  refine ChangesOnly.bind ((keepsProposals_loadProposal id).changesOnly _ _) fun p w' hp => ?_
  obtain ⟨rfl, hlookup⟩ := run_loadProposal hp
  obtain ⟨rfl, hcounted, -, -⟩ := hw.files id p hlookup
  split_ifs
  · exact (keepsProposals_pure p).changesOnly _ _
  have hhappens : KeepsProposals (happens (.approved p.proposalId approver)) := fun _ => rfl
  refine ChangesOnly.bind (hhappens.changesOnly _ _) fun _ w'' hw'' => ?_
  obtain rfl : { w' with log := .approved p.proposalId approver :: w'.log } = w'' :=
    congrArg Prod.snd hw''
  refine changesOnly_runPipeline (p := { p with approvals := withVote p.approvals approver })
    (hw.approve _ approver) (hcounted.approve approver) fun q w' hq => ?_
  have hid : q.proposalId = p.proposalId := hq
  refine ChangesOnly.bind ((keepsProposals_recordReviewQuality o approver).changesOnly _ _)
    fun _ w' _ => ?_
  rw [← hid]
  refine ChangesOnly.bind (changesOnly_saveProposal q w') fun _ w' _ => ?_
  exact ((keepsProposals_noteStatus q).bind fun _ => keepsProposals_pure q).changesOnly _ _

theorem changesOnly_rejectAmendment (hw : Consistent c start w) (id : ProposalId) (rejector : Str)
    (o : Outside) : ChangesOnly id (rejectAmendment P c id rejector o) w := by
  unfold rejectAmendment
  refine ChangesOnly.bind ((keepsProposals_loadProposal id).changesOnly _ _) fun p w' hp => ?_
  obtain ⟨rfl, hlookup⟩ := run_loadProposal hp
  obtain ⟨rfl, hcounted, -, -⟩ := hw.files id p hlookup
  refine changesOnly_runPipeline (p := { p with rejections := withVote p.rejections rejector })
    hw (hcounted.reject rejector) fun q w' hq => ?_
  have hid : q.proposalId = p.proposalId := hq
  rw [show ({ p with rejections := withVote p.rejections rejector } : AmendmentProposal).proposalId =
    q.proposalId from hid.symm]
  refine ChangesOnly.bind (changesOnly_saveProposal q w') fun _ w' _ => ?_
  have hhappens : ∀ i, KeepsProposals (happens (.rejected i rejector)) := fun _ _ => rfl
  exact ((keepsProposals_noteStatus q).bind fun _ =>
    (keepsProposals_recordReviewQuality o rejector).bind fun _ =>
      (keepsProposals_writeRejection o q).bind fun _ =>
        (hhappens _).bind fun _ => keepsProposals_pure q).changesOnly _ _

theorem KeepsFiles.of_changesOnly {α : Type} {id : ProposalId} {m : AmendmentMethod α}
    (h : ChangesOnly id m w) :
    KeepsFiles w.proposals (Method.run m w).2.proposals {i | i ≠ id} := by
  intro i hi p hp
  rw [h i hi, hp]

/-! ### Proposals -/

theorem isolated_iff_distinct (hw : Consistent c start w) (call : AmendmentCall) :
    Isolated P c w call ↔ Distinct P w call := by
  cases call with
  | approve id approver o =>
    refine iff_of_true ?_ trivial
    exact .of_changesOnly (changesOnly_approveAmendment hw id approver o)
  | reject id rejector o =>
    refine iff_of_true ?_ trivial
    exact .of_changesOnly (changesOnly_rejectAmendment hw id rejector o)
  | propose now timestamp proposer newPolicyText rationale oldPolicyHash journalFails =>
    unfold Isolated Distinct World.step AmendmentCall.run
    dsimp only
    unfold proposeAmendment
    cases hhash : textHash P newPolicyText with
    | none =>
      refine iff_of_true ⟨fun i _ p hp => hp, fun p hp => by cases hp⟩ fun hash h => by cases h
    | some hash =>
      obtain ⟨b, hb, -⟩ := Option.map_eq_some_iff.mp hhash
      have htext : readAscii newPolicyText = newPolicyText :=
        readAscii_eq_self (exists_encode_iff.mp ⟨b, hb⟩)
      obtain ⟨p, hp⟩ : ∃ p, newProposal now timestamp proposer newPolicyText rationale
        oldPolicyHash hash = p := ⟨_, rfl⟩
      have hproposals : (Method.run (saveProposal p >>= fun _ => happens (.proposed now hash) >>=
          fun _ => if journalFails = true then Method.ofExcept (.error .outside) else pure p)
            w).2.proposals = Assoc.set w.proposals now p.reread := by
        subst hp
        cases journalFails <;> rfl
      dsimp only
      rw [hp, hproposals]
      constructor
      · rintro ⟨hkeeps, -⟩ h heq q hq
        obtain rfl := Option.some.inj heq
        have hstays := hkeeps now (Set.mem_univ _) q hq
        rw [Assoc.lookup_set, if_pos rfl] at hstays
        rw [hp]
        exact (Option.some.inj hstays).symm
      · intro hdistinct
        refine ⟨fun i _ q hq => ?_, fun q hq => ?_⟩
        · rw [Assoc.lookup_set]
          by_cases hi : i = now
          · subst hi
            rw [if_pos rfl, hdistinct hash rfl q hq, hp]
          · rw [if_neg hi]
            exact hq
        · obtain rfl : p = q := by
            subst hp
            cases journalFails with
            | false => exact Except.ok.inj hq
            | true => cases hq
          subst hp
          refine ⟨AmendmentProposal.reread (newProposal now timestamp proposer newPolicyText rationale
            oldPolicyHash hash), ?_, htext, rfl, rfl, rfl⟩
          rw [Assoc.lookup_set]
          exact if_pos rfl

/-- In a run, every call leaves the other proposals alone exactly when none overwrites one. -/
theorem isolated_run_iff (P : Platform) (c : Config) (start : Str) (calls : List AmendmentCall) :
    Run.Meets (World.step P c) (Isolated P c) (World.fresh start) calls ↔
      Run.Meets (World.step P c) (Distinct P) (World.fresh start) calls :=
  Run.meets_congr_of_invariant (J := Consistent c start) (fun _ call h => h.step call)
    (fun _ call h => isolated_iff_distinct h call) (consistent_fresh start)

/-- Two proposals that are made in the same second. -/
def sameSecond : List AmendmentCall :=
  [exampleProposal 0 "a", exampleProposal 0 "b"]

/-- The second proposal takes the place of the first one. -/
theorem not_isolated_run :
    ¬ ∀ calls : List AmendmentCall, Run.Meets (World.step reference exampleConfig)
      (Isolated reference exampleConfig) (World.fresh []) calls := by
  intro h
  obtain ⟨-, ⟨hkeeps, -⟩, -⟩ := h sameSecond
  have hfirst : ((World.step reference exampleConfig (World.fresh [])
      (exampleProposal 0 "a")).proposals.lookup 0).map AmendmentProposal.newPolicyText =
        some (str "a") := by decide +kernel
  have hsecond : ((Run.run (World.step reference exampleConfig) (World.fresh [])
      sameSecond).proposals.lookup 0).map AmendmentProposal.newPolicyText = some (str "b") := by
    decide +kernel
  obtain ⟨p, hp, htext⟩ := Option.map_eq_some_iff.mp hfirst
  obtain ⟨q, hq, htext'⟩ := Option.map_eq_some_iff.mp hsecond
  obtain rfl := Option.some.inj ((hkeeps 0 (Set.mem_univ _) p hp).symm.trans hq)
  exact absurd (htext.symm.trans htext') (by decide)

end Adaad.Amendment
