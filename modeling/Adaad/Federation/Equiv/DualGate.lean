import Adaad.Federation.Equiv.MutationBroker

/-!
# Which runs keep the two gates

Only an evaluation adds to the accepted proposals, and it asks the gate of the destination
alone.  So the accepted proposals are what `DualGate` says exactly as long as every envelope that
this gate approves, and that the loop comes to, is approved by its source, addressed to this
repository and new (`dualGate_iff`).
-/

namespace Adaad.MutationBroker

open Py Run

variable {P : Platform} {c : Config} {localRepo : Str} {b b' : Broker P}

/-! ### One envelope -/

/-- The gate of the destination approves the proposal of the envelope, and the digests can be
computed. -/
def Accepts (e : Envelope P) (r : Response P) (p : FederatedMutationProposal P) : Prop :=
  fromDict P e = .ok p ∧ ∃ d digest, r.gate = .inr (.ok d) ∧ approved d = true ∧
    acceptanceDigest p d = .ok digest

def Continues (c : Config) (e : Envelope P) (r : Response P) : Prop :=
  Placeable e r ∧ ¬ QuarantineRaises c e r

theorem Accepts.unique {e : Envelope P} {r : Response P} {p p' : FederatedMutationProposal P}
    (h : Accepts e r p) (h' : Accepts e r p') : p = p' :=
  Except.ok.inj (h.1.symm.trans h'.1)

theorem accepts_of_not_refused {e : Envelope P} {r : Response P} {p : FederatedMutationProposal P}
    (hp : fromDict P e = .ok p) (hplace : Placeable e r) (hrefused : ¬ Refused e r) :
    Accepts e r p := by
  refine ⟨hp, ?_⟩
  cases hgate : r.gate with
  | inl exc => exact absurd (.inr (.inl ⟨exc, hgate⟩)) hrefused
  | inr decision =>
    obtain ⟨d, rfl, hdigest⟩ := hplace.2 p hp decision hgate
    have happroved : approved d = true := by
      by_contra hnot
      exact hrefused (.inr (.inr ⟨d, hgate, Bool.eq_false_iff.mpr hnot⟩))
    obtain ⟨digest, hdigest⟩ := hdigest happroved
    exact ⟨d, digest, rfl, happroved, hdigest⟩

theorem evaluateProposal_of_accepts {e : Envelope P} {r : Response P}
    {p : FederatedMutationProposal P} (c : Config) (b : Broker P) (h : Accepts e r p) :
    ∃ b' m, evaluateProposal c b e r = (b', .ok (some m)) ∧ Moves b b' [m] [] ∧ m.proposal = p ∧
      approved m.destinationGateDecisionPayload = true := by
  obtain ⟨hp, d, digest, hgate, happroved, hdigest⟩ := h
  have hjudge : judge p (.inr (.ok d)) = .ok (.accepted ⟨p, d, digest⟩) := by
    unfold judge
    simp only [bind, Except.bind, if_pos happroved, hdigest, pure, Except.pure]
  unfold evaluateProposal
  rw [hp, hgate]
  simp only [hjudge]
  rw [andThen_of_ok (emitAudit_ok c r.audit _ (by decide))]
  exact ⟨_, _, rfl, ⟨rfl, rfl, (List.append_nil _).symm⟩, rfl, happroved⟩

theorem evaluateProposal_of_not_accepts {e : Envelope P} {r : Response P} (c : Config)
    (b : Broker P) (h : ∀ p, ¬ Accepts e r p) :
    (evaluateProposal c b e r).1.accepted = b.accepted ∧
      ((Continues c e r ∧ (evaluateProposal c b e r).2 = .ok none) ∨
        (¬ Continues c e r ∧ ∃ exc, (evaluateProposal c b e r).2 = .error exc)) := by
  have houtcome := outcome c b e r
  generalize evaluateProposal c b e r = one at houtcome
  cases houtcome with
  | lost exc hplace => exact ⟨rfl, .inr ⟨fun hcont => hplace hcont.1, exc, rfl⟩⟩
  | accepted m hplace hrefused hm hmoves =>
    exact absurd (accepts_of_not_refused hm hplace hrefused) (h m.proposal)
  | quarantined reason hplace hraises hmoves =>
    exact ⟨hmoves.accepted.trans (List.append_nil _), .inl ⟨⟨hplace, hraises⟩, rfl⟩⟩
  | raised reason exc hplace hraises hmoves =>
    exact ⟨hmoves.accepted.trans (List.append_nil _), .inr ⟨fun hcont => hcont.2 hraises, exc, rfl⟩⟩

/-! ### One evaluation -/

/-- The proposal was approved by its source, is addressed to this repository, and has none of these
identifiers. -/
structure Sound (localRepo : Str) (ids : List Str) (p : FederatedMutationProposal P) : Prop where
  source : p.sourceApproved = true
  addressed : p.destinationRepo = localRepo
  new : p.proposalId ∉ ids

/-- Each envelope of a batch that the loop comes to and the gate of the destination approves is
sound; `ids` are the identifiers accepted so far. -/
def Admitted (c : Config) (localRepo : Str) : List Str → List (Envelope P × Response P) → Prop
  | _, [] => True
  | ids, (e, r) :: pending =>
    (∀ p, Accepts e r p →
      Sound localRepo ids p ∧ Admitted c localRepo (ids ++ [p.proposalId]) pending) ∧
    ((∀ p, ¬ Accepts e r p) → Continues c e r → Admitted c localRepo ids pending)

/-- The identifiers of the accepted proposals. -/
def acceptedIds (b : Broker P) : List Str :=
  b.accepted.map (·.proposal.proposalId)

theorem dualGate_nil : DualGate localRepo ([] : List (AcceptedFederatedMutation P)) :=
  ⟨nofun, nofun, nofun, List.nodup_nil⟩

theorem dualGate_concat {ms : List (AcceptedFederatedMutation P)} {m : AcceptedFederatedMutation P}
    (hm : approved m.destinationGateDecisionPayload = true) :
    DualGate localRepo (ms ++ [m]) ↔
      DualGate localRepo ms ∧ Sound localRepo (ms.map (·.proposal.proposalId)) m.proposal := by
  have hdistinct : ((ms ++ [m]).map (·.proposal.proposalId)).Nodup ↔
      (ms.map (·.proposal.proposalId)).Nodup ∧
        m.proposal.proposalId ∉ ms.map (·.proposal.proposalId) := by
    rw [List.map_append, List.map_singleton, List.nodup_append_comm, List.singleton_append,
      List.nodup_cons, and_comm]
  constructor
  · intro h
    obtain ⟨hnodup, hnew⟩ := hdistinct.mp h.distinct
    have hmem : m ∈ ms ++ [m] := by simp
    refine ⟨⟨fun x hx => h.source x ?_, fun x hx => h.destination x ?_,
      fun x hx => h.addressed x ?_, hnodup⟩, h.source m hmem, h.addressed m hmem, hnew⟩
    all_goals exact List.mem_append_left _ hx
  · rintro ⟨h, hsound⟩
    have hall : ∀ {q : AcceptedFederatedMutation P → Prop}, (∀ x ∈ ms, q x) → q m →
        ∀ x ∈ ms ++ [m], q x := by
      intro q hq hqm x hx
      rcases List.mem_append.mp hx with hx | hx
      · exact hq x hx
      · exact List.mem_singleton.mp hx ▸ hqm
    exact ⟨hall h.source hsound.source, hall h.destination hm, hall h.addressed hsound.addressed,
      hdistinct.mpr ⟨h.distinct, hsound.new⟩⟩

theorem accepted_prefix_evaluatePending (c : Config) (b : Broker P)
    (pending : List (Envelope P × Response P)) :
    b.accepted <+: (evaluatePending c b pending).1.accepted := by
  obtain ⟨placed, lost, sources, as, qs, -, hmoves, -⟩ := evaluatePending_spec c b pending
  rw [hmoves.accepted]
  exact List.prefix_append _ _

theorem DualGate.of_prefix {ms ms' : List (AcceptedFederatedMutation P)} (h : DualGate localRepo ms')
    (hpre : ms <+: ms') : DualGate localRepo ms where
  source m hm := h.source m (hpre.mem hm)
  destination m hm := h.destination m (hpre.mem hm)
  addressed m hm := h.addressed m (hpre.mem hm)
  distinct := ((hpre.map _).sublist).nodup h.distinct

theorem dualGate_evaluatePending (c : Config) {b : Broker P} (hb : DualGate localRepo b.accepted)
    (pending : List (Envelope P × Response P)) :
    DualGate localRepo (evaluatePending c b pending).1.accepted ↔
      Admitted c localRepo (acceptedIds b) pending := by
  induction pending generalizing b with
  | nil => exact iff_of_true hb trivial
  | cons m pending ih =>
    obtain ⟨e, r⟩ := m
    rw [Admitted]
    by_cases haccepts : ∃ p, Accepts e r p
    · obtain ⟨p, hp⟩ := haccepts
      obtain ⟨b', m, heval, hmoves, rfl, happroved⟩ := evaluateProposal_of_accepts c b hp
      have hloop : (evaluatePending c b ((e, r) :: pending)).1 = (evaluatePending c b' pending).1 := by
        rw [evaluatePending, heval]
      have hids : acceptedIds b' = acceptedIds b ++ [m.proposal.proposalId] := by
        rw [acceptedIds, hmoves.accepted, List.map_append, List.map_singleton, acceptedIds]
      have hstep : DualGate localRepo b'.accepted ↔
          Sound localRepo (acceptedIds b) m.proposal := by
        rw [hmoves.accepted, dualGate_concat happroved, and_iff_right hb, acceptedIds]
      rw [hloop]
      constructor
      · intro h
        have hb' := h.of_prefix (accepted_prefix_evaluatePending c b' pending)
        refine ⟨fun p' hp' => ?_, fun hnot => absurd hp (hnot _)⟩
        obtain rfl := hp.unique hp'
        rw [← hids]
        exact ⟨hstep.mp hb', (ih hb').mp h⟩
      · intro h
        obtain ⟨hsound, hrest⟩ := h.1 m.proposal hp
        rw [← hids] at hrest
        exact (ih (hstep.mpr hsound)).mpr hrest
    · have hnot : ∀ p, ¬ Accepts e r p := fun p hp => haccepts ⟨p, hp⟩
      obtain ⟨haccepted, hcases⟩ := evaluateProposal_of_not_accepts c b hnot
      have hids : acceptedIds (evaluateProposal c b e r).1 = acceptedIds b := by
        rw [acceptedIds, haccepted, acceptedIds]
      rw [and_iff_right fun p hp => absurd hp (hnot p)]
      rcases hcases with ⟨hcont, hresult⟩ | ⟨hcont, exc, hresult⟩
      · -- the loop goes on
        have hloop : (evaluatePending c b ((e, r) :: pending)).1 =
            (evaluatePending c (evaluateProposal c b e r).1 pending).1 := by
          rw [evaluatePending, hresult]
        rw [hloop, ih (haccepted ▸ hb), hids]
        exact ⟨fun h _ _ => h, fun h => h hnot hcont⟩
      · -- the exception ends it
        have hloop : (evaluatePending c b ((e, r) :: pending)).1 =
            (evaluateProposal c b e r).1 := by
          rw [evaluatePending, hresult]
        rw [hloop, haccepted]
        exact iff_of_true hb fun _ h => absurd h hcont

/-! ### Runs -/

/-- The call admits nothing that is not sound. -/
def Admits (c : Config) (localRepo : Str) (n : Node P) : Operation P → Prop
  | .propose .. => True
  | .receive .. => True
  | .evaluate responses =>
    Admitted c localRepo (acceptedIds n.broker) (pendingOf responses n.broker)

theorem accepted_propose (chainDigest : Except Exc P.Obj) (audit : Str → Option Raised)
    (n : Node P) (r : ProposeRequest P) :
    (proposeFederatedMutation c localRepo chainDigest audit n r).1.broker.accepted =
      n.broker.accepted := by
  unfold proposeFederatedMutation
  cases packageProposal P localRepo chainDigest r <;> rfl

theorem accepted_receive (audit : Str → Option Raised) (b : Broker P) (e : Envelope P) :
    (receiveProposal c audit b e).1.accepted = b.accepted := by
  unfold receiveProposal
  rcases fromDict P e with (message | exc) | p <;> rfl

theorem dualGate_operate {n : Node P} (hn : DualGate localRepo n.broker.accepted)
    (op : Operation P) : DualGate localRepo (operate c localRepo n op).broker.accepted ↔
      Admits c localRepo n op := by
  cases op with
  | propose chainDigest audit r =>
    rw [operate, accepted_propose]
    exact iff_of_true hn trivial
  | receive e audit =>
    show DualGate localRepo (receiveProposal c audit n.broker e).1.accepted ↔ True
    rw [accepted_receive]
    exact iff_of_true hn trivial
  | evaluate responses =>
    exact dualGate_evaluatePending c (b := { n.broker with inbound := [] }) hn
      (pendingOf responses n.broker)

/-- From a new broker on, the accepted proposals have passed both gates, are addressed to this
repository and are distinct after every call of a run exactly when no call admits another one. -/
theorem dualGate_iff (c : Config) (localRepo : Str) (ops : List (Operation P)) :
    Always (operate c localRepo) (fun n => DualGate localRepo n.broker.accepted) {} ops ↔
      Meets (operate c localRepo) (Admits c localRepo) {} ops :=
  always_iff_meets (fun _ op hn => dualGate_operate hn op) dualGate_nil

/-! ### A forged envelope -/

def approving : Response reference where
  gate := .inr (.ok [(.str (str "approved"), .bool true)])
  audit _ := none

/-- In general a proposal is accepted that its source has not approved. -/
theorem not_dualGate : ¬ ∀ (c : Config) (localRepo : Str) (ops : List (Operation reference)),
    DualGate localRepo (run (operate c localRepo) {} ops).broker.accepted := by
  intro h
  have hsource := (h ⟨false, .failOpen⟩ (str "x")
    [.receive envelope fun _ => none, .evaluate fun _ => approving]).source
  have hforged : (run (operate ⟨false, .failOpen⟩ (str "x")) {}
      [.receive envelope fun _ => none, .evaluate fun _ => approving]).broker.accepted.any
      (fun m => !m.proposal.sourceApproved) = true := by
    decide +kernel
  obtain ⟨m, hm, hnot⟩ := List.any_eq_true.mp hforged
  rw [hsource m hm] at hnot
  cases hnot

end Adaad.MutationBroker
