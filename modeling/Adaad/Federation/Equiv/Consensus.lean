import Adaad.Federation.Consensus

/-!
# Election safety

`electionSafe_of_legitimate`: in a run in which every reply that brings a tally over the threshold
is legitimate, no two members lead in one term.  Without that condition they can
(`not_electionSafe`): a reply that arrives after its candidate has moved on to a later term makes
it a leader of that term.

The argument is the usual one.  A node votes for one candidate in a term (`Inv.unique`), since its
term never falls and it forgets a vote only when its term rises (`Inv.backed`); a leader has the
votes of a majority (`Inv.led`), and two majorities share a voter.
-/

namespace Adaad.Consensus

open Py Run

variable {members : List Str} {f f' : Federation}

/-! ### Majorities -/

theorem two_mul_lt_of_reachesQuorum {votes totalNodes : Nat}
    (h : reachesQuorum votes totalNodes = true) : totalNodes < 2 * votes := by
  unfold reachesQuorum at h
  simp only [decide_eq_true_eq] at h
  omega

theorem exists_common {vs ws : List Str} (hvs : vs.Nodup) (hws : ws.Nodup) (hv : vs ⊆ members)
    (hw : ws ⊆ members) (hvq : reachesQuorum vs.length members.length = true)
    (hwq : reachesQuorum ws.length members.length = true) : ∃ v, v ∈ vs ∧ v ∈ ws := by
  by_contra hnone
  have hdisj : vs.Disjoint ws := by
    intro v hv' hw'
    exact hnone ⟨v, hv', hw'⟩
  have hsub : (vs ++ ws).Subperm members :=
    (hvs.append hws hdisj).subperm (List.append_subset.mpr ⟨hv, hw⟩)
  have hlen := hsub.length_le
  rw [List.length_append] at hlen
  have := two_mul_lt_of_reachesQuorum hvq
  have := two_mul_lt_of_reachesQuorum hwq
  omega

/-! ### What the handlers do to a node -/

theorem observe_cases (s : ConsensusState) (term : Int) :
    (s.currentTerm < term ∧ s.observe term =
      { s with currentTerm := term, role := .follower, votedFor := none }) ∨
    (term ≤ s.currentTerm ∧ s.observe term = s) := by
  unfold ConsensusState.observe
  by_cases h : s.currentTerm < term
  · exact .inl ⟨h, if_pos h⟩
  · exact .inr ⟨not_lt.mp h, if_neg h⟩

/-- What a node does with a request: it refuses and keeps its vote, or it grants, and then the
candidate has its vote in the term of the request. -/
theorem requestVote_cases (e : Engine) (cid : Str) (term : Int) :
    (∃ t, requestVote e cid term = (⟨false, t⟩, e)) ∨
    ∃ s, requestVote e cid term = (⟨true, term⟩, { e with state := s }) ∧
      s.nodeId = e.state.nodeId ∧ s.currentTerm = term ∧ s.votedFor = some cid ∧
      (e.state.currentTerm < term ∧ s.role = .follower ∨
        e.state.currentTerm = term ∧ s.role = e.state.role ∧
          (e.state.votedFor = none ∨ e.state.votedFor = some cid)) := by
  unfold requestVote
  by_cases hold : term < e.state.currentTerm
  · rw [if_pos hold]
    exact .inl ⟨_, rfl⟩
  · rw [if_neg hold]
    rcases observe_cases e.state term with ⟨hlt, hobs⟩ | ⟨hle, hobs⟩
    · rw [hobs]
      exact .inr ⟨_, if_pos (.inl rfl), rfl, rfl, rfl, .inl ⟨hlt, rfl⟩⟩
    · have heq : e.state.currentTerm = term := by omega
      simp only [hobs]
      by_cases hvote : e.state.votedFor = none ∨ e.state.votedFor = some cid
      · rw [if_pos hvote, heq]
        exact .inr ⟨_, rfl, rfl, rfl, rfl, .inr ⟨rfl, rfl, hvote⟩⟩
      · rw [if_neg hvote]
        exact .inl ⟨_, rfl⟩

theorem receiveHeartbeat_cases (e : Engine) (lid : Str) (term : Int) :
    receiveHeartbeat e lid term = e ∨
    ∃ s, receiveHeartbeat e lid term = { e with state := s } ∧ s.nodeId = e.state.nodeId ∧
      e.state.currentTerm ≤ s.currentTerm ∧ s.votedFor = e.state.votedFor ∧
      s.role = .follower := by
  unfold receiveHeartbeat
  by_cases h : e.state.currentTerm ≤ term
  · rw [if_pos h]
    exact .inr ⟨_, rfl, rfl, h, rfl, rfl⟩
  · rw [if_neg h]
    exact .inl rfl

theorem count_eq (e : Engine) (eid : Str) (granted : Bool) :
    e.count eid granted =
      { e with votesReceived := (e.count eid granted).votesReceived } := by
  unfold Engine.count
  cases granted <;> rfl

theorem totalNodes_count (e : Engine) (eid : Str) (granted : Bool) :
    (e.count eid granted).totalNodes = e.totalNodes := by
  rw [count_eq]
  rfl

theorem receiveVote_cases (e : Engine) (eid : Str) (granted : Bool) (fault : Option Exc) :
    ∃ s votes, (receiveVote e eid granted fault).2 =
        { e with state := s, votesReceived := votes } ∧
      s.nodeId = e.state.nodeId ∧ s.currentTerm = e.state.currentTerm ∧
      s.votedFor = e.state.votedFor ∧
      (s.role = e.state.role ∨
        reachesQuorum ((e.count eid granted).votesReceived eid) e.totalNodes = true) := by
  unfold receiveVote
  simp only [totalNodes_count]
  by_cases h : reachesQuorum ((e.count eid granted).votesReceived eid) e.totalNodes = true
  · rw [if_pos h, count_eq]
    exact ⟨_, _, rfl, rfl, rfl, rfl, .inr h⟩
  · rw [if_neg h]
    exact ⟨e.state, _, count_eq e eid granted, rfl, rfl, rfl, .inl rfl⟩

/-! ### Votes -/

/-- The node voted for the candidate in the term: it replied so, or it is the candidate itself. -/
def Cast (f : Federation) (v c : Str) (term : Int) : Prop :=
  (v = c ∧ ∃ eid, .voteRequest eid c term ∈ f.sent) ∨
    ∃ eid, .voteReply eid c v ⟨true, term⟩ ∈ f.sent

/-- The candidate has the votes of a majority in the term. -/
def Elected (members : List Str) (f : Federation) (c : Str) (term : Int) : Prop :=
  ∃ vs : List Str, vs.Nodup ∧ vs ⊆ members ∧
    reachesQuorum vs.length members.length = true ∧ ∀ v ∈ vs, Cast f v c term

theorem Cast.mono (h : f.sent ⊆ f'.sent) {v c : Str} {term : Int} (hc : Cast f v c term) :
    Cast f' v c term := by
  rcases hc with ⟨hv, eid, hm⟩ | ⟨eid, hm⟩
  · exact .inl ⟨hv, eid, h hm⟩
  · exact .inr ⟨eid, h hm⟩

theorem Elected.mono (h : f.sent ⊆ f'.sent) {c : Str} {term : Int}
    (he : Elected members f c term) : Elected members f' c term := by
  obtain ⟨vs, hnd, hsub, hq, hcast⟩ := he
  exact ⟨vs, hnd, hsub, hq, fun v hv => (hcast v hv).mono h⟩

/-- The messages of a federation belong together. -/
structure WellSent (members : List Str) (f : Federation) : Prop where
  /-- An election has one candidate, a member, and one term. -/
  started : ∀ eid c term, .voteRequest eid c term ∈ f.sent → c ∈ members
  once : ∀ eid c c' term term', .voteRequest eid c term ∈ f.sent →
    .voteRequest eid c' term' ∈ f.sent → c = c' ∧ term = term'
  /-- A reply answers a request, and grants it for the term of the request. -/
  answers : ∀ eid c v r, .voteReply eid c v r ∈ f.sent → v ∈ members ∧
    ∃ term, .voteRequest eid c term ∈ f.sent ∧ (r.voteGranted = true → r.term = term)
  /-- Only granted votes are counted. -/
  counted : ∀ eid v, (eid, v) ∈ f.counted →
    ∃ c r, .voteReply eid c v r ∈ f.sent ∧ r.voteGranted = true

/-- The invariant of a federation. -/
structure Inv (members : List Str) (f : Federation) : Prop where
  sent : WellSent members f
  nodeId : ∀ n ∈ members, (f.node n).state.nodeId = n
  totalNodes : ∀ n ∈ members, (f.node n).totalNodes = members.length
  /-- A vote is one of a term that the voter has reached, and as long as the voter is in that term
  it remembers its vote. -/
  backed : ∀ v c term, Cast f v c term → term ≤ (f.node v).state.currentTerm ∧
    (term = (f.node v).state.currentTerm → (f.node v).state.votedFor = some c)
  /-- A node votes for one candidate in a term. -/
  unique : ∀ v c c' term, Cast f v c term → Cast f v c' term → c = c'
  /-- A leader was elected in its term. -/
  led : ∀ n ∈ members, (f.node n).state.role = .leader →
    Elected members f n (f.node n).state.currentTerm

theorem Inv.electionSafe (h : Inv members f) : ElectionSafe members f := by
  intro m hm n hn hml hnl hterm
  obtain ⟨vs, hvs, hv, hvq, hvc⟩ := h.led m hm hml
  obtain ⟨ws, hws, hw, hwq, hwc⟩ := h.led n hn hnl
  obtain ⟨v, hvv, hvw⟩ := exists_common hvs hws hv hw hvq hwq
  have hcast := hvc v hvv
  rw [hterm] at hcast
  exact h.unique v m n _ hcast (hwc v hvw)

/-! ### Steps -/

theorem sent_subset_step (f : Federation) (a : Action) : f.sent ⊆ (step f a).sent := by
  cases a with
  | startElection => exact List.subset_cons_self _ _
  | requestVote => exact List.subset_cons_self _ _
  | receiveVote => exact List.Subset.refl _
  | sendHeartbeat => exact List.subset_cons_self _ _
  | receiveHeartbeat => exact List.Subset.refl _

/-- A node moves on and messages are sent.  Whatever the handler is, these are the things to know
about it: the term does not fall, a vote is kept while the term stays, a new vote is one of that
node in its new term, and a leader is elected. -/
theorem Inv.update (h : Inv members f) (n : Str) (s : ConsensusState) (votes : Str → Nat)
    (hnode : f'.node = Function.update f.node n { f.node n with state := s, votesReceived := votes })
    (hsent : f.sent ⊆ f'.sent) (hwell : WellSent members f')
    (hid : s.nodeId = (f.node n).state.nodeId)
    (hterm : (f.node n).state.currentTerm ≤ s.currentTerm)
    (hkeep : (f.node n).state.currentTerm = s.currentTerm →
      ∀ c, (f.node n).state.votedFor = some c → s.votedFor = some c)
    (hnew : ∀ v c term, Cast f' v c term → Cast f v c term ∨
      (v = n ∧ term = s.currentTerm ∧ s.votedFor = some c))
    (hled : n ∈ members → s.role = .leader → Elected members f' n s.currentTerm) :
    Inv members f' := by
  have hself : f'.node n = { f.node n with state := s, votesReceived := votes } := by
    rw [hnode, Function.update_self]
  have hother : ∀ m, m ≠ n → f'.node m = f.node m := by
    intro m hm
    rw [hnode, Function.update_of_ne hm]
  have hbacked : ∀ v c term, Cast f' v c term → term ≤ (f'.node v).state.currentTerm ∧
      (term = (f'.node v).state.currentTerm → (f'.node v).state.votedFor = some c) := by
    intro v c term hcast
    rcases hnew v c term hcast with hold | ⟨rfl, rfl, hvote⟩
    · obtain ⟨hle, hvote⟩ := h.backed v c term hold
      by_cases hv : v = n
      · subst hv
        rw [hself]
        refine ⟨le_trans hle hterm, fun heq => ?_⟩
        -- The voter is still in the term, so that it was there before the step too.
        have hsame : (f.node v).state.currentTerm = s.currentTerm :=
          le_antisymm hterm (heq ▸ hle)
        exact hkeep hsame c (hvote (heq.trans hsame.symm))
      · rw [hother v hv]
        exact ⟨hle, hvote⟩
    · rw [hself]
      exact ⟨le_rfl, fun _ => hvote⟩
  refine ⟨hwell, ?_, ?_, hbacked, ?_, ?_⟩
  · intro m hm
    by_cases hmn : m = n
    · subst hmn
      rw [hself]
      exact hid.trans (h.nodeId m hm)
    · rw [hother m hmn]
      exact h.nodeId m hm
  · intro m hm
    by_cases hmn : m = n
    · subst hmn
      rw [hself]
      exact h.totalNodes m hm
    · rw [hother m hmn]
      exact h.totalNodes m hm
  · intro v c c' term hc hc'
    have huse : ∀ {a b}, Cast f' v a term → Cast f' v b term →
        (v = n ∧ term = s.currentTerm ∧ s.votedFor = some a) → a = b := by
      rintro a b - hb ⟨rfl, rfl, hvote⟩
      have hvote' := (hbacked v b _ hb).2 (by rw [hself])
      rw [hself] at hvote'
      exact Option.some.inj (hvote.symm.trans hvote')
    rcases hnew v c term hc with hold | hvote
    · rcases hnew v c' term hc' with hold' | hvote'
      · exact h.unique v c c' term hold hold'
      · exact (huse hc' hc hvote').symm
    · exact huse hc hc' hvote
  · intro m hm hrole
    by_cases hmn : m = n
    · subst hmn
      rw [hself] at hrole ⊢
      exact hled hm hrole
    · rw [hother m hmn] at hrole ⊢
      exact (h.led m hm hrole).mono hsent

theorem inv_startElection (h : Inv members f) {n eid : Str} {fault : Option Exc}
    (hen : Enabled members f (.startElection n eid fault)) :
    Inv members (step f (.startElection n eid fault)) := by
  obtain ⟨hn, hfresh⟩ := hen
  have hsent : (step f (.startElection n eid fault)).sent =
      .voteRequest eid n ((f.node n).state.currentTerm + 1) :: f.sent := rfl
  have hunused : ∀ c term, .voteRequest eid c term ∉ f.sent := by
    intro c term hm
    exact hfresh _ hm rfl
  refine h.update n { (f.node n).state with
      currentTerm := (f.node n).state.currentTerm + 1
      role := .candidate
      votedFor := some (f.node n).state.nodeId } _ rfl (sent_subset_step _ _) ?_ rfl ?_ ?_ ?_ ?_
  · constructor
    · intro id c term hm
      rw [hsent, List.mem_cons] at hm
      rcases hm with hm | hm
      · injection hm with _ hc _
        rw [hc]
        exact hn
      · exact h.sent.started id c term hm
    · intro id c c' term term' hm hm'
      rw [hsent, List.mem_cons] at hm hm'
      rcases hm with hm | hm <;> rcases hm' with hm' | hm'
      · injection hm with _ hc ht
        injection hm' with _ hc' ht'
        exact ⟨hc.trans hc'.symm, ht.trans ht'.symm⟩
      · injection hm with hid _ _
        exact absurd (hid ▸ hm') (hunused _ _)
      · injection hm' with hid _ _
        exact absurd (hid ▸ hm) (hunused _ _)
      · exact h.sent.once id c c' term term' hm hm'
    · intro id c v r hm
      rw [hsent, List.mem_cons] at hm
      rcases hm with hm | hm
      · exact nomatch hm
      · obtain ⟨hv, term, hreq, hterm⟩ := h.sent.answers id c v r hm
        exact ⟨hv, term, List.mem_cons_of_mem _ hreq, hterm⟩
    · intro id v hc
      obtain ⟨c, r, hm, hr⟩ := h.sent.counted id v hc
      exact ⟨c, r, List.mem_cons_of_mem _ hm, hr⟩
  · show (f.node n).state.currentTerm ≤ (f.node n).state.currentTerm + 1
    omega
  · intro heq
    have heq' : (f.node n).state.currentTerm = (f.node n).state.currentTerm + 1 := heq
    omega
  · intro v c term hcast
    -- The only new vote is that of the candidate for itself.
    rcases hcast with ⟨hv, id, hm⟩ | ⟨id, hm⟩
    · rw [hsent, List.mem_cons] at hm
      rcases hm with hm | hm
      · injection hm with _ hc ht
        refine .inr ⟨hv.trans hc, ht, ?_⟩
        rw [hc, h.nodeId n hn]
      · exact .inl (.inl ⟨hv, id, hm⟩)
    · rw [hsent, List.mem_cons] at hm
      rcases hm with hm | hm
      · exact nomatch hm
      · exact .inl (.inr ⟨id, hm⟩)
  · exact fun _ hrole => nomatch hrole

theorem inv_requestVote (h : Inv members f) {n eid cid : Str} {term : Int}
    (hen : Enabled members f (.requestVote n eid cid term)) :
    Inv members (step f (.requestVote n eid cid term)) := by
  obtain ⟨hn, hreq⟩ := hen
  have hwell : ∀ r : VoteReply, (r.voteGranted = true → r.term = term) →
      (step f (.requestVote n eid cid term)).sent = .voteReply eid cid n r :: f.sent →
      WellSent members (step f (.requestVote n eid cid term)) := by
    intro r hr hsent
    constructor
    · intro id c t hm
      rw [hsent, List.mem_cons] at hm
      exact h.sent.started id c t (hm.resolve_left nofun)
    · intro id c c' t t' hm hm'
      rw [hsent, List.mem_cons] at hm hm'
      exact h.sent.once id c c' t t' (hm.resolve_left nofun) (hm'.resolve_left nofun)
    · intro id c v r' hm
      rw [hsent, List.mem_cons] at hm
      rw [hsent]
      rcases hm with hm | hm
      · injection hm with hid hc hv hr'
        subst hid hc hv hr'
        exact ⟨hn, term, List.mem_cons_of_mem _ hreq, hr⟩
      · obtain ⟨hv, t, hm', ht⟩ := h.sent.answers id c v r' hm
        exact ⟨hv, t, List.mem_cons_of_mem _ hm', ht⟩
    · intro id v hc
      obtain ⟨c, r', hm, hr'⟩ := h.sent.counted id v hc
      rw [hsent]
      exact ⟨c, r', List.mem_cons_of_mem _ hm, hr'⟩
  rcases requestVote_cases (f.node n) cid term with ⟨t, hr⟩ | ⟨s, hr, hid, hterm, hvote, hcase⟩
  · have hstep : step f (.requestVote n eid cid term) =
        (f.setNode n (f.node n)).send (.voteReply eid cid n ⟨false, t⟩) := by
      rw [step, hr]
    refine h.update n (f.node n).state (f.node n).votesReceived ?_
      (sent_subset_step _ _) (hwell ⟨false, t⟩ nofun (by rw [hstep]; rfl)) rfl le_rfl
      (fun _ _ hc => hc) ?_ ?_
    · rw [hstep]
      rfl
    · intro v c t' hcast
      refine .inl ?_
      rcases hcast with ⟨hv, id, hm⟩ | ⟨id, hm⟩
      · rw [hstep] at hm
        exact .inl ⟨hv, id, (List.mem_cons.mp hm).resolve_left nofun⟩
      · rw [hstep] at hm
        refine .inr ⟨id, (List.mem_cons.mp hm).resolve_left fun hm => ?_⟩
        injection hm with _ _ _ hm
        exact nomatch hm
    · intro hn hrole
      exact (h.led n hn hrole).mono (sent_subset_step _ _)
  · have hstep : step f (.requestVote n eid cid term) =
        (f.setNode n { f.node n with state := s }).send (.voteReply eid cid n ⟨true, term⟩) := by
      rw [step, hr]
    refine h.update n s (f.node n).votesReceived ?_
      (sent_subset_step _ _) (hwell ⟨true, term⟩ (fun _ => rfl) (by rw [hstep]; rfl)) hid ?_ ?_ ?_ ?_
    · rw [hstep]
      rfl
    · rcases hcase with ⟨hlt, -⟩ | ⟨heq, -⟩
      · omega
      · omega
    · intro hsame c hc
      rcases hcase with ⟨hlt, -⟩ | ⟨-, -, hnone | hsome⟩
      · omega
      · exact absurd (hnone.symm.trans hc) nofun
      · rw [hvote, ← hsome, hc]
    · intro v c t hcast
      -- The only new vote is the one that was granted.
      rcases hcast with ⟨hv, id, hm⟩ | ⟨id, hm⟩
      · rw [hstep] at hm
        exact .inl (.inl ⟨hv, id, (List.mem_cons.mp hm).resolve_left nofun⟩)
      · rw [hstep] at hm
        rcases List.mem_cons.mp hm with hm | hm
        · injection hm with _ hc hv ht
          injection ht with _ ht
          exact .inr ⟨hv, ht.trans hterm.symm, by rw [hvote, hc]⟩
        · exact .inl (.inr ⟨id, hm⟩)
    · intro hn hrole
      rcases hcase with ⟨-, hfollower⟩ | ⟨heq, hsame, -⟩
      · exact nomatch hfollower.symm.trans hrole
      · rw [hterm]
        have hled := (h.led n hn (hsame ▸ hrole)).mono
          (sent_subset_step f (.requestVote n eid cid term))
        rw [heq] at hled
        exact hled

theorem inv_receiveVote (h : Inv members f) {eid cid vid : Str} {reply : VoteReply}
    {fault : Option Exc} (hnd : members.Nodup)
    (hen : Enabled members f (.receiveVote eid cid vid reply fault))
    (hok : Legitimate members f (.receiveVote eid cid vid reply fault)) :
    Inv members (step f (.receiveVote eid cid vid reply fault)) := by
  have hreply : .voteReply eid cid vid reply ∈ f.sent := hen
  obtain ⟨s, votes, hr, hid, hterm, hvote, hrole⟩ :=
    receiveVote_cases (f.node cid) eid reply.voteGranted fault
  have hcounted : ∀ id v, (id, v) ∈ f.countedWith eid vid reply.voteGranted →
      ∃ c r, .voteReply id c v r ∈ f.sent ∧ r.voteGranted = true := by
    intro id v hc
    unfold Federation.countedWith at hc
    split_ifs at hc with hgranted
    · rcases List.mem_cons.mp hc with hc | hc
      · obtain ⟨rfl, rfl⟩ := Prod.mk.inj hc
        exact ⟨cid, reply, hreply, hgranted⟩
      · exact h.sent.counted id v hc
    · exact h.sent.counted id v hc
  have hnode : (step f (.receiveVote eid cid vid reply fault)).node =
      Function.update f.node cid { f.node cid with state := s, votesReceived := votes } := by
    rw [step, hr]
    rfl
  refine h.update cid s votes hnode (sent_subset_step _ _)
    ⟨h.sent.started, h.sent.once, h.sent.answers, hcounted⟩ hid (le_of_eq hterm.symm) ?_ ?_ ?_
  · intro _ c hc
    rw [hvote, hc]
  · exact fun v c t hcast => .inl hcast
  · intro hc hlead
    rw [hterm]
    rcases hrole with hsame | hquorum
    · exact (h.led cid hc (hsame ▸ hlead)).mono (List.Subset.refl _)
    -- The node becomes leader: its supporters are voters of this term.
    · obtain ⟨hreq, hq⟩ := hok hquorum
      refine ⟨_, hnd.filter _, List.filter_sublist.subset, hq, fun v hv => ?_⟩
      have hv' := (List.mem_filter.mp hv).2
      simp only [decide_eq_true_eq] at hv'
      rcases hv' with rfl | hv'
      · exact .inl ⟨rfl, eid, hreq⟩
      · obtain ⟨c, r, hm, hgranted⟩ := hcounted eid v hv'
        obtain ⟨-, t, hreq', ht⟩ := h.sent.answers eid c v r hm
        obtain ⟨rfl, rfl⟩ := h.sent.once eid c cid t _ hreq' hreq
        have hr' : r = ⟨true, (f.node c).state.currentTerm⟩ := by
          rw [← ht hgranted, ← hgranted]
        exact .inr ⟨eid, hr' ▸ hm⟩

theorem inv_sendHeartbeat (h : Inv members f) (n : Str) :
    Inv members (step f (.sendHeartbeat n)) := by
  have hreq : ∀ {eid c term}, .voteRequest eid c term ∈ (step f (.sendHeartbeat n)).sent →
      .voteRequest eid c term ∈ f.sent := fun hm => (List.mem_cons.mp hm).resolve_left nofun
  have hrep : ∀ {eid c v r}, .voteReply eid c v r ∈ (step f (.sendHeartbeat n)).sent →
      .voteReply eid c v r ∈ f.sent := fun hm => (List.mem_cons.mp hm).resolve_left nofun
  have hold := sent_subset_step f (.sendHeartbeat n)
  have hwell : WellSent members (step f (.sendHeartbeat n)) := by
    constructor
    · exact fun eid c term hm => h.sent.started eid c term (hreq hm)
    · exact fun eid c c' t t' hm hm' => h.sent.once eid c c' t t' (hreq hm) (hreq hm')
    · intro eid c v r hm
      obtain ⟨hv, t, hm', ht⟩ := h.sent.answers eid c v r (hrep hm)
      exact ⟨hv, t, hold hm', ht⟩
    · intro eid v hc
      obtain ⟨c, r, hm, hr⟩ := h.sent.counted eid v hc
      exact ⟨c, r, hold hm, hr⟩
  refine h.update n (f.node n).state (f.node n).votesReceived
    (Function.update_eq_self n f.node).symm hold hwell rfl le_rfl (fun _ _ hc => hc) ?_ ?_
  · rintro v c t (⟨hv, eid, hm⟩ | ⟨eid, hm⟩)
    · exact .inl (.inl ⟨hv, eid, hreq hm⟩)
    · exact .inl (.inr ⟨eid, hrep hm⟩)
  · exact fun hn hrole => (h.led n hn hrole).mono hold

theorem inv_receiveHeartbeat (h : Inv members f) (n lid : Str) (term : Int) :
    Inv members (step f (.receiveHeartbeat n lid term)) := by
  have hwell : WellSent members (step f (.receiveHeartbeat n lid term)) :=
    ⟨h.sent.started, h.sent.once, h.sent.answers, h.sent.counted⟩
  rcases receiveHeartbeat_cases (f.node n) lid term with hr | ⟨s, hr, hid, hterm, hvote, hrole⟩
  · refine h.update n (f.node n).state (f.node n).votesReceived ?_
      (List.Subset.refl _) hwell rfl le_rfl (fun _ _ hc => hc) (fun v c t hcast => .inl hcast) ?_
    · show Function.update f.node n (receiveHeartbeat (f.node n) lid term) = _
      rw [hr]
    · exact fun hn hrole => h.led n hn hrole
  · refine h.update n s (f.node n).votesReceived ?_
      (List.Subset.refl _) hwell hid hterm ?_ (fun v c t hcast => .inl hcast) ?_
    · show Function.update f.node n (receiveHeartbeat (f.node n) lid term) = _
      rw [hr]
    · exact fun _ c hc => hvote.trans hc
    · exact fun _ hlead => nomatch hrole.symm.trans hlead

theorem inv_step (hnd : members.Nodup) {a : Action} (h : Inv members f)
    (ha : Enabled members f a ∧ Legitimate members f a) : Inv members (step f a) := by
  cases a with
  | startElection n eid fault => exact inv_startElection h ha.1
  | requestVote n eid cid term => exact inv_requestVote h ha.1
  | receiveVote eid cid vid reply fault => exact inv_receiveVote h hnd ha.1 ha.2
  | sendHeartbeat n => exact inv_sendHeartbeat h n
  | receiveHeartbeat n lid term => exact inv_receiveHeartbeat h n lid term

/-! ### Runs -/

theorem inv_of_initial (h : Initial members f) : Inv members f := by
  have hnone : ∀ m, m ∉ f.sent := by
    intro m hm
    rw [h.sent_eq] at hm
    exact nomatch hm
  have hcast : ∀ v c term, ¬ Cast f v c term := by
    rintro v c term (⟨-, eid, hm⟩ | ⟨eid, hm⟩)
    · exact hnone _ hm
    · exact hnone _ hm
  refine ⟨⟨fun _ _ _ hm => absurd hm (hnone _), fun _ _ _ _ _ hm => absurd hm (hnone _),
    fun _ _ _ _ hm => absurd hm (hnone _), fun _ _ hc => ?_⟩, ?_, ?_,
    fun v c t hc => absurd hc (hcast v c t), fun v c _ t hc => absurd hc (hcast v c t), ?_⟩
  · rw [h.counted_eq] at hc
    exact nomatch hc
  · intro n hn
    obtain ⟨peers, _, _, _, -, heq⟩ := h.isInit n hn
    rw [heq]
    rfl
  · intro n hn
    obtain ⟨peers, _, _, _, hperm, heq⟩ := h.isInit n hn
    rw [heq]
    exact hperm.length_eq
  · intro n hn hrole
    obtain ⟨peers, _, _, _, -, heq⟩ := h.isInit n hn
    rw [heq] at hrole
    exact nomatch hrole

/-- **Election safety**: in a run from new engines in which no reply makes a node leader
illegitimately, there is never more than one leader in a term. -/
theorem electionSafe_of_legitimate (hnd : members.Nodup) (hf : Initial members f)
    {as : List Action}
    (has : Meets step (fun f a => Enabled members f a ∧ Legitimate members f a) f as) :
    Always step (ElectionSafe members) f as :=
  (always_of_step (fun _ _ h ha => inv_step hnd h ha) (inv_of_initial hf) has).imp
    fun _ h => h.electionSafe

/-! ### Three nodes -/

def nodeA : Str := str "a"
def nodeB : Str := str "b"
def nodeC : Str := str "c"

def trio : List Str := [nodeA, nodeB, nodeC]

def newTrio : Federation where
  node n := Engine.init n (trio.erase n) false .failClosedCritical []
  sent := []
  counted := []

theorem initial_newTrio : Initial trio newTrio where
  sent_eq := rfl
  counted_eq := rfl
  isInit n hn := ⟨trio.erase n, false, .failClosedCritical, [],
    (List.perm_cons_erase hn).symm, rfl⟩

def election1 : Str := str "election-1"
def election2 : Str := str "election-2"

/-- The first node starts an election, and both others vote for it. -/
def firstElection : List Action :=
  [.startElection nodeA election1 none,
    .requestVote nodeB election1 nodeA 1,
    .requestVote nodeC election1 nodeA 1,
    .receiveVote election1 nodeA nodeB ⟨true, 1⟩ none]

/-- The first node leads, and nobody else does. -/
theorem electionSafe_firstElection :
    Always step (ElectionSafe trio) newTrio firstElection ∧
      ((run step newTrio firstElection).node nodeA).state.role = .leader :=
  ⟨electionSafe_of_legitimate (by decide) initial_newTrio (by decide), by decide⟩

/-- Then the second node is elected for the next term and its heartbeat makes the first one a
follower; last comes the other reply to the first election. -/
def lateReply : List Action :=
  [.startElection nodeB election2 none,
    .requestVote nodeC election2 nodeB 2,
    .receiveVote election2 nodeB nodeC ⟨true, 2⟩ none,
    .sendHeartbeat nodeB,
    .receiveHeartbeat nodeA nodeB 2,
    .receiveVote election1 nodeA nodeC ⟨true, 1⟩ none]

/-- In general elections are not safe. -/
theorem not_electionSafe : ¬ ∀ (members : List Str) (f : Federation) (as : List Action),
    members.Nodup → Initial members f → Meets step (Enabled members) f as →
      Always step (ElectionSafe members) f as := by
  intro h
  have hsafe := (h trio newTrio (firstElection ++ lateReply) (by decide) initial_newTrio
    (by decide)).last
  exact absurd (hsafe nodeA (by decide) nodeB (by decide) (by decide) (by decide) (by decide))
    (by decide)

end Adaad.Consensus
