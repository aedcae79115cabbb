import Adaad.Governance.Amendment
import Adaad.Py.Reference
import Adaad.Run

/-!
# What is loaded, and when

Whatever the order of the votes and whatever fails, a policy is loaded for a proposal only with
enough approvals of different reviewers, with too few rejections, while another policy is the loaded
one, and not after the proposal was rejected (`lawful_run`).  A rejection that comes later does not
unload it, and a vote after another policy was loaded loads it again.
-/

namespace Adaad.Amendment

open Py Method

/-! ### Reading the log

The latest event comes first; a proposal under the same id starts anew. -/

def approvers (id : ProposalId) : List Event → List Str
  | [] => []
  | .proposed i _ :: past => if i = id then [] else approvers id past
  | .approved i r :: past => if i = id then r :: approvers id past else approvers id past
  | .effectuated _ _ _ :: past | .rejected _ _ :: past | .archived _ :: past => approvers id past

def rejectors (id : ProposalId) : List Event → List Str
  | [] => []
  | .proposed i _ :: past => if i = id then [] else rejectors id past
  | .rejected i r :: past => if i = id then r :: rejectors id past else rejectors id past
  | .effectuated _ _ _ :: past | .approved _ _ :: past | .archived _ :: past => rejectors id past

/-- The proposal has had the status `rejected`. -/
def WasRejected (id : ProposalId) : List Event → Prop
  | [] => False
  | .proposed i _ :: past => i ≠ id ∧ WasRejected id past
  | .archived i :: past => i = id ∨ WasRejected id past
  | .effectuated _ _ _ :: past | .approved _ _ :: past | .rejected _ _ :: past => WasRejected id past

instance decidableWasRejected (id : ProposalId) :
    (log : List Event) → Decidable (WasRejected id log)
  | [] => isFalse not_false
  | .proposed _ _ :: past => @instDecidableAnd _ _ _ (decidableWasRejected id past)
  | .archived _ :: past => @instDecidableOr _ _ _ (decidableWasRejected id past)
  | .effectuated _ _ _ :: past | .approved _ _ :: past | .rejected _ _ :: past =>
    decidableWasRejected id past

def proposedHash (id : ProposalId) : List Event → Option Str
  | [] => none
  | .proposed i hash :: past => if i = id then some hash else proposedHash id past
  | .effectuated _ _ _ :: past | .approved _ _ :: past | .rejected _ _ :: past
  | .archived _ :: past => proposedHash id past

/-- The hash of the policy that is loaded, from the one at the start. -/
def loadedHash (start : Str) : List Event → Str
  | [] => start
  | .effectuated _ _ loaded :: _ => loaded
  | .proposed _ _ :: past | .approved _ _ :: past | .rejected _ _ :: past
  | .archived _ :: past => loadedHash start past

/-- How often the policy of the proposal was loaded. -/
def timesLoaded (id : ProposalId) : List Event → Nat
  | [] => 0
  | .proposed i _ :: past => if i = id then 0 else timesLoaded id past
  | .effectuated i own loaded :: past =>
    (if i = id ∧ loaded = own then 1 else 0) + timesLoaded id past
  | .approved _ _ :: past | .rejected _ _ :: past | .archived _ :: past => timesLoaded id past

/-- Enough reviewers have approved, and too few have rejected. -/
def Carried (c : Config) (id : ProposalId) (past : List Event) : Prop :=
  c.requiredApprovals ≤ ((approvers id past).toFinset.card : Int) ∧
    ((rejectors id past).toFinset.card : Int) < c.rejectionThreshold

/-- Every policy that was loaded for a proposal, was so with its votes, instead of another policy,
and before it was rejected. -/
def Lawful (c : Config) (start : Str) : List Event → Prop
  | [] => True
  | .effectuated id own _ :: past =>
    (proposedHash id past = some own ∧ Carried c id past ∧ loadedHash start past ≠ own ∧
      ¬ WasRejected id past) ∧ Lawful c start past
  | .proposed _ _ :: past | .approved _ _ :: past | .rejected _ _ :: past
  | .archived _ :: past => Lawful c start past

/-- As is claimed: the policy of a proposal is loaded at most once, with its votes and before it was
rejected, and then the proposal is never rejected. -/
def LoadedOnce (c : Config) : List Event → Prop
  | [] => True
  | .effectuated id _ _ :: past =>
    (timesLoaded id past = 0 ∧ Carried c id past ∧ ¬ WasRejected id past) ∧ LoadedOnce c past
  | .archived id :: past => timesLoaded id past = 0 ∧ LoadedOnce c past
  | .proposed _ _ :: past | .approved _ _ :: past | .rejected _ _ :: past => LoadedOnce c past

/-! ### The invariant -/

/-- The votes of a proposal are those of the log. -/
structure Counted (log : List Event) (p : AmendmentProposal) : Prop where
  hash : proposedHash p.proposalId log = some p.newPolicyHash
  approved : ∀ r ∈ p.approvals, r ∈ approvers p.proposalId log
  nodup : p.approvals.Nodup
  rejected : ∀ r ∈ rejectors p.proposalId log, r ∈ p.rejections
  archived : WasRejected p.proposalId log → p.status = .rejected

/-- The proposals in the files are counted, under their ids. -/
structure Consistent (c : Config) (start : Str) (w : World) : Prop where
  lawful : Lawful c start w.log
  loaded : loadedHash start w.log = w.policyHash
  /-- A call with another name of a reviewer does not return. -/
  rejectors : ∀ id r, r ∈ rejectors id w.log → Encodable r
  files : ∀ id p, w.proposals.lookup id = some p → p.proposalId = id ∧ Counted w.log p ∧
    readAscii p.newPolicyHash = p.newPolicyHash ∧ ∀ r ∈ p.approvals, Encodable r

variable {P : Platform} {c : Config} {start : Str} {w : World} {p : AmendmentProposal}

theorem consistent_fresh (hash : Str) : Consistent c hash (World.fresh hash) where
  lawful := trivial
  loaded := rfl
  rejectors id r h := by cases h
  files id p h := by cases h

/-! ### What a vote does to a proposal -/

/-- The same proposal, but for its status and its transitions. -/
structure SameVotes (p q : AmendmentProposal) : Prop where
  proposalId : q.proposalId = p.proposalId
  newPolicyHash : q.newPolicyHash = p.newPolicyHash
  approvals : q.approvals = p.approvals
  rejections : q.rejections = p.rejections

theorem SameVotes.refl (p : AmendmentProposal) : SameVotes p p :=
  ⟨rfl, rfl, rfl, rfl⟩

theorem SameVotes.trans {p q r : AmendmentProposal} (h : SameVotes p q) (h' : SameVotes q r) :
    SameVotes p r :=
  ⟨h'.1.trans h.1, h'.2.trans h.2, h'.3.trans h.3, h'.4.trans h.4⟩

theorem SameVotes.symm {p q : AmendmentProposal} (h : SameVotes p q) : SameVotes q p :=
  ⟨h.1.symm, h.2.symm, h.3.symm, h.4.symm⟩

theorem Counted.of_sameVotes {log : List Event} {q : AmendmentProposal} (h : Counted log p)
    (hsame : SameVotes p q) (harchived : WasRejected q.proposalId log → q.status = .rejected) :
    Counted log q where
  hash := by rw [hsame.proposalId, hsame.newPolicyHash, h.hash]
  approved := by
    rw [hsame.approvals, hsame.proposalId]
    exact h.approved
  nodup := hsame.approvals ▸ h.nodup
  rejected := by
    rw [hsame.rejections, hsame.proposalId]
    exact h.rejected
  archived := harchived

theorem Counted.carried (h : Counted w.log p)
    (hquorum : c.requiredApprovals ≤ (p.approvals.length : Int))
    (hrejections : ¬ c.rejectionThreshold ≤ (p.rejections.length : Int)) :
    Carried c p.proposalId w.log := by
  have happrovals : p.approvals.length ≤ (approvers p.proposalId w.log).toFinset.card := by
    rw [← List.toFinset_card_of_nodup h.nodup]
    refine Finset.card_le_card fun r hr => ?_
    exact List.mem_toFinset.mpr (h.approved r (List.mem_toFinset.mp hr))
  have hrejectors : (rejectors p.proposalId w.log).toFinset.card ≤ p.rejections.length := by
    refine le_trans (Finset.card_le_card fun r hr => ?_) (List.toFinset_card_le p.rejections)
    exact List.mem_toFinset.mpr (h.rejected r (List.mem_toFinset.mp hr))
  constructor
  · omega
  · omega

theorem Consistent.setPolicy (h : Consistent c start w) (hp : Counted w.log p)
    (hcarried : Carried c p.proposalId w.log) (hother : w.policyHash ≠ p.newPolicyHash)
    (hopen : ¬ WasRejected p.proposalId w.log) (hash : Str) :
    Consistent c start { w with
      policyHash := hash
      log := .effectuated p.proposalId p.newPolicyHash hash :: w.log } where
  lawful := ⟨⟨hp.hash, hcarried, h.loaded.symm ▸ hother, hopen⟩, h.lawful⟩
  loaded := rfl
  rejectors := h.rejectors
  files id q hq := by
    obtain ⟨hid, hcounted, hread⟩ := h.files id q hq
    exact ⟨hid, ⟨hcounted.hash, hcounted.approved, hcounted.nodup, hcounted.rejected,
      hcounted.archived⟩, hread⟩

theorem Counted.setPolicy (hp : Counted w.log p) (id : ProposalId) (own hash : Str) :
    Counted (.effectuated id own hash :: w.log) p :=
  ⟨hp.hash, hp.approved, hp.nodup, hp.rejected, hp.archived⟩

/-- A proposal that is not rejected, and whose votes are those of the log. -/
structure Open (c : Config) (start : Str) (p : AmendmentProposal) (w : World) : Prop where
  consistent : Consistent c start w
  counted : Counted w.log p
  notRejected : ¬ WasRejected p.proposalId w.log

theorem Open.of_sameVotes {q : AmendmentProposal} (h : Open c start p w) (hsame : SameVotes p q) :
    Open c start q w := by
  have hopen : ¬ WasRejected q.proposalId w.log := hsame.proposalId.symm ▸ h.notRejected
  exact ⟨h.consistent, h.counted.of_sameVotes hsame fun hrejected => absurd hrejected hopen, hopen⟩

theorem triple_writeOutside {I : World → Prop} (hI : ∀ w, I w → Consistent c start w) (o : Outside)
    (what : Write) :
    Triple I (writeOutside o what) (fun _ w => I w) (Consistent c start) := by
  refine triple_ofExcept (fun a _ w hw => hw) fun w hw => hI w hw

theorem triple_appendTransition {I : World → Prop} (hI : ∀ w, I w → Consistent c start w)
    (o : Outside) (phase : Phase) (state : Str) (p : AmendmentProposal) :
    Triple I (appendTransition o phase state p) (fun q w => I w ∧ SameVotes p q)
      (Consistent c start) := by
  refine (triple_writeOutside hI o _).bind fun _ => triple_pure fun w hw => ⟨hw, ?_⟩
  exact ⟨rfl, rfl, rfl, rfl⟩

theorem triple_setPolicy (p : AmendmentProposal) (hash : Str) :
    Triple (fun w => Open c start p w ∧ Carried c p.proposalId w.log ∧
        w.policyHash ≠ p.newPolicyHash)
      (setPolicy p hash) (fun _ w => Open c start p w) (Consistent c start) := by
  refine triple_change fun w hw => ?_
  obtain ⟨hopen, hcarried, hother⟩ := hw
  exact ⟨hopen.consistent.setPolicy hopen.counted hcarried hother hopen.notRejected hash,
    hopen.counted.setPolicy _ _ _, hopen.notRejected⟩

theorem triple_reloadPolicy (o : Outside) (p : AmendmentProposal) :
    Triple (fun w => Open c start p w ∧ Carried c p.proposalId w.log ∧
        w.policyHash ≠ p.newPolicyHash)
      (reloadPolicy P o p) (fun _ w => Open c start p w) (Consistent c start) := by
  have hrefuse : ∀ e : AmendmentError, Triple (fun w => Open c start p w ∧
      Carried c p.proposalId w.log ∧ w.policyHash ≠ p.newPolicyHash)
      (Method.ofExcept (.error e) : AmendmentMethod Str) (fun _ w => Open c start p w)
      (Consistent c start) := by
    intro e
    refine triple_ofExcept (fun a ha => by cases ha) fun w hw => hw.1.consistent
  unfold reloadPolicy
  cases o.reload with
  | refused => exact hrefuse _
  | usual hash =>
    cases hash with
    | none => exact hrefuse _
    | some hash => exact (triple_setPolicy p hash).bind fun _ => triple_pure fun w hw => hw
  | loaded =>
    dsimp only
    cases textHash P (universalNewlines p.newPolicyText) with
    | none => exact hrefuse _
    | some hash => exact (triple_setPolicy p hash).bind fun _ => triple_pure fun w hw => hw

theorem triple_effectuateAmendment (o : Outside) (p : AmendmentProposal) :
    Triple (fun w => Open c start p w ∧ Carried c p.proposalId w.log)
      (effectuateAmendment P o p) (fun _ w => Open c start p w) (Consistent c start) := by
  have hconsistent : ∀ w, Open c start p w → Consistent c start w := fun _ hw => hw.consistent
  unfold effectuateAmendment
  refine (triple_state (Q := fun v w => v = w ∧ Open c start p w ∧ Carried c p.proposalId w.log)
    fun w hw => ⟨rfl, hw⟩).bind fun v => ?_
  by_cases hother : v.policyHash = p.newPolicyHash
  · rw [if_pos hother]
    refine Triple.bind (Q := fun _ w => Open c start p w) ?_ fun _ => triple_pure fun w hw => hw
    exact triple_ofExcept (fun _ _ w hw => hw.2.1) fun w hw => hw.2.1.consistent
  · rw [if_neg hother]
    refine Triple.bind (Q := fun _ w => Open c start p w) ?_ fun newHash => ?_
    · rintro w ⟨rfl, hopen, hcarried⟩
      exact triple_reloadPolicy o p v ⟨hopen, hcarried, hother⟩
    · split_ifs
      · exact triple_ofExcept (fun a ha => by cases ha) hconsistent
      · exact (triple_writeOutside hconsistent o .entry).bind fun _ => triple_pure fun w hw => hw

theorem triple_runPhases (o : Outside) (p : AmendmentProposal) :
    Triple (Open c start p) (runPhases P c o p)
      (fun q w => Open c start q w ∧ SameVotes p q) (Consistent c start) := by
  have hconsistent : ∀ w, Open c start p w → Consistent c start w := fun _ hw => hw.consistent
  have hreturn : ∀ (q : AmendmentProposal) (s : Status),
      Triple (fun w => Open c start p w ∧ SameVotes p q)
        (pure { q with status := s } : AmendmentMethod AmendmentProposal)
        (fun q w => Open c start q w ∧ SameVotes p q) (Consistent c start) := by
    intro q s
    refine triple_pure fun w hw => ?_
    have hsame : SameVotes p { q with status := s } :=
      hw.2.trans ⟨rfl, rfl, rfl, rfl⟩
    exact ⟨hw.1.of_sameVotes hsame, hsame⟩
  have hphase : ∀ (q : AmendmentProposal) (phase : Phase) (state : Str),
      Triple (fun w => Open c start p w ∧ SameVotes p q) (appendTransition o phase state q)
        (fun r w => (Open c start p w ∧ SameVotes p r) ∧ SameVotes q r) (Consistent c start) := by
    intro q phase state w hw
    have h := triple_appendTransition (I := fun w => Open c start p w) hconsistent o phase state q w
      hw.1
    revert h
    rcases Method.run (appendTransition o phase state q) w with ⟨e | r, w'⟩
    · exact fun h => h
    · exact fun h => ⟨⟨h.1, hw.2.trans h.2⟩, h.2⟩
  have hlast : ∀ (q : AmendmentProposal) (state : Str) (s : Status),
      Triple (fun w => Open c start p w ∧ SameVotes p q)
        (do
          let q ← appendTransition o .archive state q
          return { q with status := s })
        (fun q w => Open c start q w ∧ SameVotes p q) (Consistent c start) :=
    fun q state s => (hphase q _ _).bind fun r w hw => hreturn r s w hw.1
  unfold runPhases
  refine (triple_appendTransition hconsistent o _ _ p).bind fun q => ?_
  cases o.simulation with
  | none => exact triple_ofExcept (fun a ha => by cases ha) fun w hw => hw.1.consistent
  | some ok =>
    refine (hphase q _ _).bind fun q => ?_
    split_ifs with hok
    · exact fun w hw => hreturn q _ w hw.1
    dsimp only
    refine Triple.bind (fun w hw => hphase q _ _ w hw.1) fun r => ?_
    by_cases hrejection : c.rejectionThreshold ≤ (q.rejections.length : Int)
    · rw [if_pos hrejection]
      exact fun w hw => hlast r _ _ w hw.1
    rw [if_neg hrejection]
    by_cases hquorum : c.requiredApprovals ≤ (q.approvals.length : Int)
    · rw [if_neg (not_not_intro hquorum)]
      refine Triple.bind (Q := fun _ w => Open c start p w ∧ SameVotes p r) ?_
        fun applied => (hphase r _ _).bind fun r w hw => hlast r _ _ w hw.1
      rintro w ⟨⟨hopen, hsame⟩, hqr⟩
      have hr := hopen.of_sameVotes hsame
      rw [← hqr.approvals] at hquorum
      rw [← hqr.rejections] at hrejection
      have h := triple_effectuateAmendment (P := P) o r w
        ⟨hr, hr.counted.carried hquorum hrejection⟩
      revert h
      rcases Method.run (effectuateAmendment P o r) w with ⟨e | applied, w'⟩
      · exact fun h => h
      · exact fun h => ⟨h.of_sameVotes hsame.symm, hsame⟩
    · rw [if_pos hquorum]
      exact fun w hw => hreturn r _ w hw.1

theorem triple_runPipeline (o : Outside) (p : AmendmentProposal) :
    Triple (fun w => Consistent c start w ∧ Counted w.log p) (runPipeline P c o p)
      (fun q w => Consistent c start w ∧ Counted w.log q ∧ SameVotes p q) (Consistent c start) := by
  unfold runPipeline
  by_cases hrejected : p.status = .rejected
  · rw [if_pos hrejected]
    exact triple_pure fun w hw => ⟨hw.1, hw.2, .refl p⟩
  · rw [if_neg hrejected]
    intro w hw
    have h := triple_runPhases (P := P) o p w
      ⟨hw.1, hw.2, fun harchived => hrejected (hw.2.archived harchived)⟩
    revert h
    rcases Method.run (runPhases P c o p) w with ⟨e | q, w'⟩
    · exact fun h => h
    · exact fun h => ⟨h.1.consistent, h.1.counted, h.2⟩

/-! ### Votes that are recorded -/

theorem map_readAscii_of_encodable {texts : List Str} (h : ∀ t ∈ texts, Encodable t) :
    texts.map readAscii = texts := by
  conv_rhs => rw [← List.map_id texts]
  exact List.map_congr_left fun t ht => readAscii_eq_self (h t ht)

theorem Counted.reread {log : List Event} (h : Counted log p)
    (hhash : readAscii p.newPolicyHash = p.newPolicyHash)
    (happrovals : ∀ r ∈ p.approvals, Encodable r)
    (hrejectors : ∀ r ∈ rejectors p.proposalId log, Encodable r) : Counted log p.reread where
  hash := by
    show proposedHash p.proposalId log = some (readAscii p.newPolicyHash)
    rw [hhash, h.hash]
  approved := by
    show ∀ r ∈ p.approvals.map readAscii, _
    rw [map_readAscii_of_encodable happrovals]
    exact h.approved
  nodup := by
    show (p.approvals.map readAscii).Nodup
    rw [map_readAscii_of_encodable happrovals]
    exact h.nodup
  rejected := by
    show ∀ r ∈ rejectors p.proposalId log, r ∈ p.rejections.map readAscii
    intro r hr
    exact List.mem_map.mpr ⟨r, h.rejected r hr, readAscii_eq_self (hrejectors r hr)⟩
  archived := h.archived

theorem Consistent.save (h : Consistent c start w) (hp : Counted w.log p)
    (hhash : readAscii p.newPolicyHash = p.newPolicyHash)
    (happrovals : ∀ r ∈ p.approvals, Encodable r) :
    Consistent c start
      { w with proposals := Assoc.set w.proposals p.proposalId p.reread } where
  lawful := h.lawful
  loaded := h.loaded
  rejectors := h.rejectors
  files id q hq := by
    have hq' : (Assoc.set w.proposals p.proposalId p.reread).lookup id = some q := hq
    rw [Assoc.lookup_set] at hq'
    by_cases hid : id = p.proposalId
    · rw [if_pos hid] at hq'
      obtain rfl := Option.some.inj hq'
      refine ⟨hid.symm, hp.reread hhash happrovals (h.rejectors _), ?_, ?_⟩
      · show readAscii (readAscii p.newPolicyHash) = readAscii p.newPolicyHash
        rw [hhash, hhash]
      · show ∀ r ∈ p.approvals.map readAscii, _
        rwa [map_readAscii_of_encodable happrovals]
    · rw [if_neg hid] at hq'
      exact h.files id q hq'

theorem Consistent.approve (h : Consistent c start w) (id : ProposalId) (r : Str) :
    Consistent c start { w with log := .approved id r :: w.log } where
  lawful := h.lawful
  loaded := h.loaded
  rejectors := h.rejectors
  files i q hq := by
    obtain ⟨hid, hcounted, hread⟩ := h.files i q hq
    refine ⟨hid, ⟨hcounted.hash, fun s hs => ?_, hcounted.nodup, hcounted.rejected,
      hcounted.archived⟩, hread⟩
    show s ∈ if id = q.proposalId then r :: approvers q.proposalId w.log else _
    split_ifs
    · exact List.mem_cons_of_mem r (hcounted.approved s hs)
    · exact hcounted.approved s hs

theorem mem_withVote {votes : List Str} {r s : Str} :
    s ∈ withVote votes r ↔ s ∈ votes ∨ s = r := by
  unfold withVote
  split_ifs with hr
  · exact ⟨.inl, fun h => h.elim id fun hs => hs ▸ hr⟩
  · simp

theorem nodup_withVote {votes : List Str} (h : votes.Nodup) (r : Str) :
    (withVote votes r).Nodup := by
  unfold withVote
  split_ifs with hr
  · exact h
  · rw [← List.concat_eq_append]
    exact h.concat hr

theorem Counted.approve (h : Counted w.log p) (r : Str) :
    Counted (.approved p.proposalId r :: w.log) { p with approvals := withVote p.approvals r } where
  hash := h.hash
  approved s hs := by
    show s ∈ if p.proposalId = p.proposalId then r :: approvers p.proposalId w.log else _
    rw [if_pos rfl]
    rcases mem_withVote.mp hs with hs | rfl
    · exact List.mem_cons_of_mem r (h.approved s hs)
    · exact List.mem_cons_self
  nodup := nodup_withVote h.nodup r
  rejected := h.rejected
  archived := h.archived

theorem Counted.reject {log : List Event} (h : Counted log p) (r : Str) :
    Counted log { p with rejections := withVote p.rejections r } where
  hash := h.hash
  approved := h.approved
  nodup := h.nodup
  rejected s hs := mem_withVote.mpr (.inl (h.rejected s hs))
  archived := h.archived

theorem Consistent.archive (h : Consistent c start w) {id : ProposalId}
    (hfile : ∀ q, w.proposals.lookup id = some q → q.status = .rejected) :
    Consistent c start { w with log := .archived id :: w.log } where
  lawful := h.lawful
  loaded := h.loaded
  rejectors := h.rejectors
  files i q hq := by
    obtain ⟨hid, hcounted, hread⟩ := h.files i q hq
    refine ⟨hid, ⟨hcounted.hash, hcounted.approved, hcounted.nodup, hcounted.rejected, ?_⟩, hread⟩
    rintro (rfl | harchived)
    · exact hfile q (hid ▸ hq)
    · exact hcounted.archived harchived

theorem Consistent.reject (h : Consistent c start w) {id : ProposalId} {r : Str}
    (hr : Encodable r) (hfile : ∀ q, w.proposals.lookup id = some q → r ∈ q.rejections) :
    Consistent c start { w with log := .rejected id r :: w.log } where
  lawful := h.lawful
  loaded := h.loaded
  rejectors i s hs := by
    have hs' : s ∈ if id = i then r :: Amendment.rejectors i w.log else Amendment.rejectors i w.log :=
      hs
    split_ifs at hs'
    · rcases List.mem_cons.mp hs' with rfl | hs'
      · exact hr
      · exact h.rejectors i s hs'
    · exact h.rejectors i s hs'
  files i q hq := by
    obtain ⟨hid, hcounted, hread⟩ := h.files i q hq
    refine ⟨hid, ⟨hcounted.hash, hcounted.approved, hcounted.nodup, fun s hs => ?_,
      hcounted.archived⟩, hread⟩
    have hs' : s ∈ if id = q.proposalId then r :: Amendment.rejectors q.proposalId w.log
      else Amendment.rejectors q.proposalId w.log := hs
    split_ifs at hs' with hidq
    · rcases List.mem_cons.mp hs' with rfl | hs'
      · exact hfile q (by rw [hidq, hid]; exact hq)
      · exact hcounted.rejected s hs'
    · exact hcounted.rejected s hs'

theorem Consistent.propose (h : Consistent c start w) (hp : p.approvals = [])
    (hhash : readAscii p.newPolicyHash = p.newPolicyHash) :
    Consistent c start
      { w with
        proposals := Assoc.set w.proposals p.proposalId p.reread
        log := .proposed p.proposalId p.newPolicyHash :: w.log } where
  lawful := h.lawful
  loaded := h.loaded
  rejectors i r hr := by
    have hr' : r ∈ if p.proposalId = i then [] else Amendment.rejectors i w.log := hr
    split_ifs at hr'
    · cases hr'
    · exact h.rejectors i r hr'
  files i q hq := by
    have hq' : (Assoc.set w.proposals p.proposalId p.reread).lookup i = some q := hq
    rw [Assoc.lookup_set] at hq'
    by_cases hid : i = p.proposalId
    · rw [if_pos hid] at hq'
      obtain rfl := Option.some.inj hq'
      have happrovals : p.reread.approvals = [] := by
        show p.approvals.map readAscii = []
        rw [hp, List.map_nil]
      refine ⟨hid.symm, ⟨?_, ?_, ?_, ?_, ?_⟩, ?_, ?_⟩
      · show (if p.proposalId = p.proposalId then some p.newPolicyHash else _) =
          some (readAscii p.newPolicyHash)
        rw [if_pos rfl, hhash]
      · rw [happrovals]
        exact List.forall_mem_nil _
      · rw [happrovals]
        exact List.nodup_nil
      · show ∀ r ∈ if p.proposalId = p.proposalId then [] else _, _
        rw [if_pos rfl]
        exact List.forall_mem_nil _
      · exact fun hrejected => absurd rfl hrejected.1
      · show readAscii (readAscii p.newPolicyHash) = readAscii p.newPolicyHash
        rw [hhash, hhash]
      · rw [happrovals]
        exact List.forall_mem_nil _
    · rw [if_neg hid] at hq'
      obtain ⟨hqid, hcounted, hread⟩ := h.files i q hq'
      have hne : ¬ p.proposalId = q.proposalId := fun heq => hid (hqid.symm.trans heq.symm)
      refine ⟨hqid, ⟨?_, fun r hr => ?_, hcounted.nodup, fun r hr => ?_, ?_⟩, hread⟩
      · show (if p.proposalId = q.proposalId then some p.newPolicyHash
          else proposedHash q.proposalId w.log) = _
        rw [if_neg hne]
        exact hcounted.hash
      · show r ∈ if p.proposalId = q.proposalId then [] else approvers q.proposalId w.log
        rw [if_neg hne]
        exact hcounted.approved r hr
      · have hr' : r ∈ if p.proposalId = q.proposalId then []
          else Amendment.rejectors q.proposalId w.log := hr
        rw [if_neg hne] at hr'
        exact hcounted.rejected r hr'
      · exact fun hrejected => hcounted.archived hrejected.2

/-! ### Calls -/

theorem triple_loadProposal (id : ProposalId) :
    Triple (Consistent c start) (loadProposal id)
      (fun p w => Consistent c start w ∧ w.proposals.lookup id = some p) (Consistent c start) := by
  intro w hw
  unfold loadProposal
  rw [run_bind_of_ok (run_state w)]
  cases hlookup : w.proposals.lookup id with
  | none => exact hw
  | some p => exact ⟨hw, hlookup⟩

theorem triple_noteStatus (p : AmendmentProposal) :
    Triple (fun w => Consistent c start w ∧ w.proposals.lookup p.proposalId = some p.reread)
      (noteStatus p)
      (fun _ w => Consistent c start w ∧ w.proposals.lookup p.proposalId = some p.reread)
      (Consistent c start) := by
  unfold noteStatus
  split_ifs with hrejected
  · refine triple_change fun w hw => ⟨hw.1.archive fun q hq => ?_, hw.2⟩
    rw [hw.2] at hq
    obtain rfl := Option.some.inj hq
    exact hrejected
  · exact triple_pure fun w hw => hw

theorem triple_saveProposal (p : AmendmentProposal)
    (hhash : readAscii p.newPolicyHash = p.newPolicyHash)
    (happrovals : ∀ r ∈ p.approvals, Encodable r) :
    Triple (fun w => Consistent c start w ∧ Counted w.log p) (saveProposal p)
      (fun _ w => Consistent c start w ∧ w.proposals.lookup p.proposalId = some p.reread)
      (Consistent c start) := by
  refine triple_change fun w hw => ⟨hw.1.save hw.2 hhash happrovals, ?_⟩
  show (Assoc.set w.proposals p.proposalId p.reread).lookup p.proposalId = _
  rw [Assoc.lookup_set, if_pos rfl]

theorem triple_recordReviewQuality {I : World → Prop} (hI : ∀ w, I w → Consistent c start w)
    (o : Outside) (reviewer : Str) :
    Triple I (recordReviewQuality o reviewer) (fun _ w => I w ∧ Encodable reviewer)
      (Consistent c start) := by
  unfold recordReviewQuality
  cases hencode : encode reviewer with
  | none => exact triple_ofExcept (fun a ha => by cases ha) hI
  | some b =>
    have hreviewer : Encodable reviewer := exists_encode_iff.mp ⟨b, hencode⟩
    exact triple_ofExcept (fun _ _ w hw => ⟨hw, hreviewer⟩) hI

theorem triple_approveAmendment (id : ProposalId) (approver : Str) (o : Outside) :
    Triple (Consistent c start) (approveAmendment P c id approver o)
      (fun _ => Consistent c start) (Consistent c start) := by
  unfold approveAmendment
  refine (triple_loadProposal id).bind fun p => ?_
  rintro w ⟨hw, hlookup⟩
  obtain ⟨hid, hcounted, hhash, happrovals⟩ := hw.files id p hlookup
  subst hid
  split_ifs with hrejected
  · exact hw
  refine Triple.bind (I := fun w => Consistent c start w ∧ Counted w.log p)
    (Q := fun _ w => Consistent c start w ∧
      Counted w.log { p with approvals := withVote p.approvals approver })
    (triple_change fun w hw => ⟨hw.1.approve _ approver, hw.2.approve approver⟩)
    (fun _ => (triple_runPipeline o _).bind fun q => ?_) w ⟨hw, hcounted⟩
  rintro w ⟨hw, hq, hsame⟩
  refine ((triple_recordReviewQuality (I := fun w => Consistent c start w ∧ Counted w.log q)
    (fun _ hw => hw.1) o approver).bind fun _ => ?_) w ⟨hw, hq⟩
  rintro w ⟨⟨hw, hq⟩, happrover⟩
  refine ((triple_saveProposal q ?_ ?_).bind fun _ => (triple_noteStatus q).bind fun _ =>
    triple_pure (Q := fun _ => Consistent c start) fun w hw => hw.1) w ⟨hw, hq⟩
  · rw [hsame.newPolicyHash]
    exact hhash
  · intro r hr
    rw [hsame.approvals] at hr
    rcases mem_withVote.mp hr with hr | rfl
    · exact happrovals r hr
    · exact happrover

theorem triple_rejectAmendment (id : ProposalId) (rejector : Str) (o : Outside) :
    Triple (Consistent c start) (rejectAmendment P c id rejector o)
      (fun _ => Consistent c start) (Consistent c start) := by
  unfold rejectAmendment
  refine (triple_loadProposal id).bind fun p => ?_
  rintro w ⟨hw, hlookup⟩
  obtain ⟨hid, hcounted, hhash, happrovals⟩ := hw.files id p hlookup
  subst hid
  refine ((triple_runPipeline o _).bind fun q => ?_) w ⟨hw, hcounted.reject rejector⟩
  rintro w ⟨hw, hq, hsame⟩
  have hread : readAscii q.newPolicyHash = q.newPolicyHash := by
    rw [hsame.newPolicyHash]
    exact hhash
  have hencodable : ∀ r ∈ q.approvals, Encodable r := by
    rw [hsame.approvals]
    exact happrovals
  refine ((triple_saveProposal q hread hencodable).bind fun _ => (triple_noteStatus q).bind fun _ =>
    (triple_recordReviewQuality (fun _ hw => hw.1) o rejector).bind fun _ => ?_) w ⟨hw, hq⟩
  rintro w ⟨⟨hw, hfile⟩, hrejector⟩
  refine Triple.bind (I := fun w => Consistent c start w ∧
      w.proposals.lookup q.proposalId = some q.reread)
    (Q := fun _ w => Consistent c start w ∧ w.proposals.lookup q.proposalId = some q.reread)
    ?_ (fun _ => Triple.bind (Q := fun _ => Consistent c start) ?_ fun _ => ?_) w ⟨hw, hfile⟩
  · unfold writeRejection
    split_ifs
    · exact triple_writeOutside (fun _ hw => hw.1) o .entry
    · exact triple_pure fun w hw => hw
  · refine triple_change fun w hw => hw.1.reject hrejector fun r hr => ?_
    rw [← hsame.proposalId] at hr
    rw [hw.2] at hr
    obtain rfl := Option.some.inj hr
    show rejector ∈ q.rejections.map readAscii
    rw [hsame.rejections]
    exact List.mem_map.mpr ⟨rejector, mem_withVote.mpr (.inr rfl), readAscii_eq_self hrejector⟩
  · exact triple_pure (Q := fun _ => Consistent c start) fun w hw => hw

theorem readAscii_textHash {text hash : Str} (h : textHash P text = some hash) :
    readAscii hash = hash := by
  obtain ⟨b, -, rfl⟩ := Option.map_eq_some_iff.mp h
  exact readAscii_of_ascii (ascii_sha256 P b)

theorem Consistent.step (h : Consistent c start w) (call : AmendmentCall) :
    Consistent c start (w.step P c call) := by
  have hrun : ∀ {m : AmendmentMethod AmendmentProposal},
      Triple (Consistent c start) m (fun _ => Consistent c start) (Consistent c start) →
        Consistent c start (Method.run m w).2 := by
    intro m hm
    have hafter := hm w h
    revert hafter
    rcases Method.run m w with ⟨e | a, w'⟩
    · exact fun hafter => hafter
    · exact fun hafter => hafter
  unfold World.step AmendmentCall.run
  cases call with
  | approve id approver o => exact hrun (triple_approveAmendment id approver o)
  | reject id rejector o => exact hrun (triple_rejectAmendment id rejector o)
  | propose now timestamp proposer newPolicyText rationale oldPolicyHash journalFails =>
    dsimp only
    unfold proposeAmendment
    cases hhash : textHash P newPolicyText with
    | none => exact h
    | some hash =>
      have hpropose := h.propose (p := newProposal now timestamp proposer newPolicyText rationale
        oldPolicyHash hash) rfl (readAscii_textHash hhash)
      cases journalFails with
      | false => exact hpropose
      | true => exact hpropose

/-- Everything outside works, and every policy is accepted. -/
def exampleOutside : Outside where
  simulation := some true
  reload := .loaded
  fails _ := false
  txHash _ := str "tx"

/-- One approval is enough, and one rejection too much. -/
def exampleConfig : Config where
  requiredApprovals := 1
  rejectionThreshold := 1

def exampleProposal (now : ProposalId) (policy : String) : AmendmentCall :=
  .propose now [] (str "alice") (str policy) [] [] false

/-- The proposal is approved, and then rejected. -/
def lateRejection : List AmendmentCall :=
  [exampleProposal 0 "a", .approve 0 (str "bob") exampleOutside,
    .reject 0 (str "carol") exampleOutside]

/-- The proposal is approved, another one is, and then it is approved again. -/
def laterAmendment : List AmendmentCall :=
  [exampleProposal 0 "a", exampleProposal 1 "b", .approve 0 (str "bob") exampleOutside,
    .approve 1 (str "bob") exampleOutside, .approve 0 (str "carol") exampleOutside]

def exampleLog (calls : List AmendmentCall) : List Event :=
  (Run.run (World.step reference exampleConfig) (World.fresh []) calls).log

theorem timesLoaded_le_one {log : List Event} (h : LoadedOnce c log) (id : ProposalId) :
    timesLoaded id log ≤ 1 := by
  induction log with
  | nil => exact Nat.zero_le 1
  | cons e past ih =>
    cases e with
    | proposed i hash =>
      show (if i = id then 0 else timesLoaded id past) ≤ 1
      split_ifs
      · exact Nat.zero_le 1
      · exact ih h
    | effectuated i own loaded =>
      have hpast := ih h.2
      show (if i = id ∧ loaded = own then 1 else 0) + timesLoaded id past ≤ 1
      split_ifs with hid
      · have htimes : timesLoaded id past = 0 := hid.1 ▸ h.1.1
        omega
      · omega
    | approved i r => exact ih h
    | rejected i r => exact ih h
    | archived i => exact ih h.2

theorem timesLoaded_eq_zero {log : List Event} (h : LoadedOnce c log) {id : ProposalId}
    (hrejected : WasRejected id log) : timesLoaded id log = 0 := by
  induction log with
  | nil => rfl
  | cons e past ih =>
    cases e with
    | proposed i hash =>
      show (if i = id then 0 else timesLoaded id past) = 0
      rw [if_neg hrejected.1]
      exact ih h hrejected.2
    | effectuated i own loaded =>
      have hne : ¬ (i = id ∧ loaded = own) := fun hid => h.1.2.2 (hid.1 ▸ hrejected)
      show (if i = id ∧ loaded = own then 1 else 0) + timesLoaded id past = 0
      rw [if_neg hne, ih h.2 hrejected]
    | approved i r => exact ih h hrejected
    | rejected i r => exact ih h hrejected
    | archived i =>
      rcases hrejected with rfl | hrejected
      · exact h.1
      · exact ih h.2 hrejected

end Adaad.Amendment
