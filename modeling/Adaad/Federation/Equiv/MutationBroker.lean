import Adaad.Federation.MutationBroker
import Adaad.Py.Reference

/-!
# Conservation of envelopes

A run of the broker keeps every envelope exactly when every call of `receive_proposal` can convert
the payloads of its envelope, and in every call of `evaluate_inbound_proposals` all envelopes can be
placed and nothing raises before the last one is (`conserved_iff`).

An evaluation takes the envelopes out of the buffer first; what comes after an exception is in no
list any more (`evaluatePending_spec`).
-/

namespace Adaad.MutationBroker

open Py Run

variable {P : Platform} {c : Config} {b b' b'' : Broker P}

/-! ### Conversions -/

/-- The payloads of an envelope without missing fields can be converted. -/
def Converts (e : Envelope P) : Prop :=
  missing P e = [] → (∃ d, dictOfValue P (item P e mutationPayloadKey) = .ok d) ∧
    ∃ d, dictOfValue P (item P e gateDecisionPayloadKey) = .ok d

theorem fromDict_of_missing {e : Envelope P} (h : missing P e ≠ []) :
    ∃ message, fromDict P e = .error (.validation message) := by
  unfold fromDict
  rw [if_neg h]
  exact ⟨_, rfl⟩

theorem dictItem_cases (e : Envelope P) (k : Str) :
    (∃ d, dictOfValue P (item P e k) = .ok d ∧ dictItem P e k = .ok d) ∨
    (∃ exc, dictOfValue P (item P e k) = .error exc ∧ dictItem P e k = .error (.conversion exc)) := by
  unfold dictItem
  rcases dictOfValue P (item P e k) with exc | d
  · exact .inr ⟨exc, rfl, rfl⟩
  · exact .inl ⟨d, rfl, rfl⟩

theorem fromDict_of_not_missing {e : Envelope P} (h : missing P e = []) :
    (Converts e ∧ ∃ p, fromDict P e = .ok p) ∨
    (¬ Converts e ∧ ∃ exc, fromDict P e = .error (.conversion exc)) := by
  unfold fromDict Converts
  rw [if_pos h]
  rcases dictItem_cases e mutationPayloadKey with ⟨d, hd, hitem⟩ | ⟨exc, hexc, hitem⟩
  · rcases dictItem_cases e gateDecisionPayloadKey with ⟨d', hd', hitem'⟩ | ⟨exc, hexc, hitem'⟩
    · rw [hitem, hitem']
      exact .inl ⟨fun _ => ⟨⟨d, hd⟩, d', hd'⟩, _, rfl⟩
    · rw [hitem, hitem']
      refine .inr ⟨fun hc => ?_, exc, rfl⟩
      obtain ⟨-, d', hd'⟩ := hc h
      exact nomatch hexc.symm.trans hd'
  · rw [hitem]
    refine .inr ⟨fun hc => ?_, exc, rfl⟩
    obtain ⟨⟨d', hd'⟩, -⟩ := hc h
    exact nomatch hexc.symm.trans hd'

/-! ### Movements -/

/-- The broker has accepted some mutations, put some records into quarantine, and left the buffer
alone. -/
structure Moves (b b' : Broker P) (as : List (AcceptedFederatedMutation P))
    (qs : List (QuarantineRecord P)) : Prop where
  inbound : b'.inbound = b.inbound
  accepted : b'.accepted = b.accepted ++ as
  quarantined : b'.quarantined = b.quarantined ++ qs

theorem Moves.refl (b : Broker P) : Moves b b [] [] :=
  ⟨rfl, (List.append_nil _).symm, (List.append_nil _).symm⟩

theorem Moves.trans {as as' : List (AcceptedFederatedMutation P)}
    {qs qs' : List (QuarantineRecord P)} (h : Moves b b' as qs) (h' : Moves b' b'' as' qs') :
    Moves b b'' (as ++ as') (qs ++ qs') where
  inbound := h'.inbound.trans h.inbound
  accepted := by rw [h'.accepted, h.accepted, List.append_assoc]
  quarantined := by rw [h'.quarantined, h.quarantined, List.append_assoc]

theorem moves_emitAudit (c : Config) (audit : Str → Option Raised) (b : Broker P)
    (eventType : Str) : Moves b (emitAudit c audit b eventType).1 [] [] :=
  ⟨rfl, (List.append_nil _).symm, (List.append_nil _).symm⟩

theorem moves_quarantine (c : Config) (audit : Str → Option Raised) (b : Broker P)
    (e : Envelope P) (reason : Str) :
    Moves b (quarantine c audit b e reason).1 [] [⟨e, reason⟩] :=
  ⟨rfl, (List.append_nil _).symm, rfl⟩

theorem emitAudit_ok (c : Config) (audit : Str → Option Raised) (b : Broker P) {eventType : Str}
    (h : eventType ∉ criticalAuditEvents) : (emitAudit c audit b eventType).2 = .ok () := by
  have hopen : failsClosed c audit eventType = false := by
    unfold failsClosed
    rw [List.contains_eq_mem, decide_eq_false h, Bool.and_false]
  unfold emitAudit
  rw [hopen]
  rfl

theorem andThen_of_ok {α : Type} {x : Broker P × Except Exc Unit} (h : x.2 = .ok ())
    (f : Broker P → Broker P × Except Exc α) : andThen x f = f x.1 := by
  unfold andThen
  rw [h]

/-! ### One envelope -/

/-- Nothing that is computed for the envelope raises: its payloads can be converted, the decision of
the gate has a payload, and if it approves, the digests can be computed. -/
def Placeable (e : Envelope P) (r : Response P) : Prop :=
  Converts e ∧ ∀ p, fromDict P e = .ok p → ∀ decision, r.gate = .inr decision →
    ∃ d, decision = .ok d ∧
      (approved d = true → ∃ digest, acceptanceDigest p d = .ok digest)

/-- The envelope goes into quarantine: fields are missing, or the gate raises or does not
approve. -/
def Refused (e : Envelope P) (r : Response P) : Prop :=
  missing P e ≠ [] ∨ (∃ exc, r.gate = .inl exc) ∨ ∃ d, r.gate = .inr (.ok d) ∧ approved d = false

/-- Putting the envelope into quarantine raises. -/
def QuarantineRaises (c : Config) (e : Envelope P) (r : Response P) : Prop :=
  Refused e r ∧ failsClosed c r.audit quarantinedEvent = true

/-- What becomes of one envelope. -/
inductive Outcome (c : Config) (b : Broker P) (e : Envelope P) (r : Response P) :
    Broker P × Except Exc (Option (AcceptedFederatedMutation P)) → Prop
  | lost (exc : Exc) (hplace : ¬ Placeable e r) : Outcome c b e r (b, .error exc)
  | accepted {b' : Broker P} (m : AcceptedFederatedMutation P) (hplace : Placeable e r)
      (hrefused : ¬ Refused e r) (hm : fromDict P e = .ok m.proposal) (hmoves : Moves b b' [m] []) :
      Outcome c b e r (b', .ok (some m))
  | quarantined {b' : Broker P} (reason : Str) (hplace : Placeable e r)
      (hraises : ¬ QuarantineRaises c e r) (hmoves : Moves b b' [] [⟨e, reason⟩]) :
      Outcome c b e r (b', .ok none)
  | raised {b' : Broker P} (reason : Str) (exc : Exc) (hplace : Placeable e r)
      (hraises : QuarantineRaises c e r) (hmoves : Moves b b' [] [⟨e, reason⟩]) :
      Outcome c b e r (b', .error exc)

theorem outcome_quarantine {e : Envelope P} {r : Response P} {b₀ b : Broker P} (reason : Str)
    {f : Broker P → Broker P × Except Exc (Option (AcceptedFederatedMutation P))}
    (hplace : Placeable e r) (hrefused : Refused e r) (hbefore : Moves b₀ b [] [])
    (hafter : ∀ b, (f b).2 = .ok none ∧ Moves b (f b).1 [] []) :
    Outcome c b₀ e r (andThen (quarantine c r.audit b e reason) f) := by
  have hmoves := hbefore.trans (moves_quarantine c r.audit b e reason)
  by_cases hclosed : failsClosed c r.audit quarantinedEvent = true
  · have herror : (quarantine c r.audit b e reason).2 =
        .error (auditError r.audit quarantinedEvent) := if_pos hclosed
    unfold andThen
    rw [herror]
    exact .raised reason _ hplace ⟨hrefused, hclosed⟩ hmoves
  · have hok : (quarantine c r.audit b e reason).2 = .ok () := if_neg hclosed
    rw [andThen_of_ok hok]
    obtain ⟨hresult, hmoves'⟩ := hafter (quarantine c r.audit b e reason).1
    have hpair : f (quarantine c r.audit b e reason).1 =
        ((f (quarantine c r.audit b e reason).1).1, .ok none) := Prod.ext rfl hresult
    rw [hpair]
    exact .quarantined reason hplace (fun h => hclosed h.2) (hmoves.trans hmoves')

theorem outcome_of_decision {e : Envelope P} {r : Response P} {p : FederatedMutationProposal P}
    {decision : Except Exc (GateDecision P)} (c : Config) (b : Broker P) (hconv : Converts e)
    (hmissing : missing P e = []) (hp : fromDict P e = .ok p) (hgate : r.gate = .inr decision) :
    Outcome c b e r (evaluateProposal c b e r) := by
  unfold evaluateProposal
  rw [hp, hgate]
  rcases decision with exc | d
  · refine .lost exc fun h => ?_
    obtain ⟨d, hd, -⟩ := h.2 p hp _ hgate
    exact nomatch hd
  · by_cases happroved : approved d = true
    · rcases hdigest : acceptanceDigest p d with exc | digest
      · have hjudge : judge p (.inr (.ok d)) = .error exc := by
          unfold judge
          simp only [bind, Except.bind, if_pos happroved, hdigest]
        simp only [hjudge]
        refine .lost exc fun h => ?_
        obtain ⟨d', hd', hall⟩ := h.2 p hp _ hgate
        obtain rfl := Except.ok.inj hd'
        obtain ⟨digest, hdigest'⟩ := hall happroved
        exact nomatch hdigest.symm.trans hdigest'
      · have hjudge : judge p (.inr (.ok d)) = .ok (.accepted ⟨p, d, digest⟩) := by
          unfold judge
          simp only [bind, Except.bind, if_pos happroved, hdigest, pure, Except.pure]
        have hplace : Placeable e r := by
          refine ⟨hconv, fun p' hp' decision hdecision => ?_⟩
          obtain rfl := Except.ok.inj (hp.symm.trans hp')
          obtain rfl := Sum.inr.inj (hgate.symm.trans hdecision)
          exact ⟨d, rfl, fun _ => ⟨digest, hdigest⟩⟩
        have hrefused : ¬ Refused e r := by
          rintro (h | ⟨exc, h⟩ | ⟨d', h, hnot⟩)
          · exact h hmissing
          · exact nomatch hgate.symm.trans h
          · obtain rfl := Except.ok.inj (Sum.inr.inj (hgate.symm.trans h))
            exact absurd happroved (by rw [hnot]; exact Bool.false_ne_true)
        simp only [hjudge]
        rw [andThen_of_ok (emitAudit_ok c r.audit _ (by decide))]
        exact .accepted ⟨p, d, digest⟩ hplace hrefused hp ⟨rfl, rfl, (List.append_nil _).symm⟩
    · have hjudge : judge p (.inr (.ok d)) =
          .ok (.rejected (str "destination_gate_rejected:" ++ decisionText d)) := by
        unfold judge
        simp only [bind, Except.bind, if_neg happroved, pure, Except.pure]
      have hplace : Placeable e r := by
        refine ⟨hconv, fun p' hp' decision hdecision => ?_⟩
        obtain rfl := Sum.inr.inj (hgate.symm.trans hdecision)
        exact ⟨d, rfl, fun h => absurd h happroved⟩
      have hrefused : Refused e r := .inr (.inr ⟨d, hgate, by simpa using happroved⟩)
      simp only [hjudge]
      refine outcome_quarantine _ hplace hrefused (Moves.refl b) fun b => ?_
      rw [andThen_of_ok (emitAudit_ok c r.audit b (by decide))]
      exact ⟨rfl, moves_emitAudit c r.audit b rejectedEvent⟩

theorem outcome (c : Config) (b : Broker P) (e : Envelope P) (r : Response P) :
    Outcome c b e r (evaluateProposal c b e r) := by
  by_cases hmissing : missing P e = []
  · rcases fromDict_of_not_missing hmissing with ⟨hconv, p, hp⟩ | ⟨hconv, exc, hexc⟩
    · rcases hgate : r.gate with exc | decision
      · have hplace : Placeable e r := by
          refine ⟨hconv, fun p hp decision hdecision => ?_⟩
          exact nomatch hgate.symm.trans hdecision
        have heval : evaluateProposal c b e r =
            andThen (quarantine c r.audit (emitAudit c r.audit b diagnosticEvent).1 e
              (str "destination_gate_raised:" ++ exc.message)) fun b => (b, .ok none) := by
          unfold evaluateProposal
          rw [hp, hgate]
          exact andThen_of_ok (emitAudit_ok c r.audit b (by decide)) _
        rw [heval]
        exact outcome_quarantine _ hplace (.inr (.inl ⟨exc, hgate⟩))
          (moves_emitAudit c r.audit b diagnosticEvent) fun b => ⟨rfl, Moves.refl b⟩
      · exact outcome_of_decision c b hconv hmissing hp hgate
    · unfold evaluateProposal
      rw [hexc]
      exact .lost exc fun h => hconv h.1
  · obtain ⟨message, hmessage⟩ := fromDict_of_missing hmissing
    have hplace : Placeable e r := by
      refine ⟨fun h => absurd h hmissing, fun p hp => ?_⟩
      exact nomatch hmessage.symm.trans hp
    unfold evaluateProposal
    rw [hmessage]
    exact outcome_quarantine message hplace (.inl hmissing) (Moves.refl b) fun b =>
      ⟨rfl, Moves.refl b⟩

/-! ### One evaluation -/

/-- All envelopes of a batch can be placed, and nothing raises before the last one is. -/
def Undisturbed (c : Config) (pending : List (Envelope P × Response P)) : Prop :=
  (∀ m ∈ pending, Placeable m.1 m.2) ∧ ∀ m ∈ pending.dropLast, ¬ QuarantineRaises c m.1 m.2

theorem undisturbed_cons {m : Envelope P × Response P} {pending : List (Envelope P × Response P)} :
    Undisturbed c (m :: pending) ↔
      Placeable m.1 m.2 ∧ (pending = [] ∨ ¬ QuarantineRaises c m.1 m.2) ∧
        Undisturbed c pending := by
  unfold Undisturbed
  cases pending with
  | nil => simp
  | cons m' pending =>
    simp only [List.dropLast_cons_cons, List.forall_mem_cons, reduceCtorEq, false_or]
    tauto

theorem evaluatePending_spec (c : Config) (b : Broker P) (pending : List (Envelope P × Response P)) :
    ∃ placed lost sources as qs, pending.map Prod.fst = placed ++ lost ∧
      Moves b (evaluatePending c b pending).1 as qs ∧
      sources.map (fromDict P) = as.map (fun m => .ok m.proposal) ∧
      placed.Perm (sources ++ qs.map (·.envelope)) ∧ (lost = [] ↔ Undisturbed c pending) := by
  induction pending generalizing b with
  | nil =>
    refine ⟨[], [], [], [], [], rfl, Moves.refl b, rfl, .refl _, iff_of_true rfl ?_⟩
    exact ⟨nofun, nofun⟩
  | cons m pending ih =>
    obtain ⟨e, r⟩ := m
    rw [undisturbed_cons]
    unfold evaluatePending
    generalize hone : evaluateProposal c b e r = one
    have houtcome : Outcome c b e r one := hone ▸ outcome c b e r
    cases houtcome with
    | lost exc hplace =>
      refine ⟨[], e :: pending.map Prod.fst, [], [], [], rfl, Moves.refl b, rfl, .refl _, ?_⟩
      exact iff_of_false nofun fun h => hplace h.1
    | accepted m hplace hrefused hm hmoves =>
      rename_i b'
      obtain ⟨placed, lost, sources, as, qs, hsplit, hmoves', hsources, hperm, hlost⟩ := ih b'
      refine ⟨e :: placed, lost, e :: sources, [m] ++ as, [] ++ qs, ?_, hmoves.trans hmoves', ?_,
        hperm.cons e, ?_⟩
      · rw [List.map_cons, hsplit]
        rfl
      · show fromDict P e :: sources.map (fromDict P) = .ok m.proposal :: as.map _
        rw [hm, hsources]
      · rw [hlost]
        have hquiet : ¬ QuarantineRaises c e r := fun h => hrefused h.1
        simp only [hplace, hquiet, not_false_eq_true, or_true, true_and]
    | quarantined reason hplace hraises hmoves =>
      rename_i b'
      obtain ⟨placed, lost, sources, as, qs, hsplit, hmoves', hsources, hperm, hlost⟩ := ih b'
      refine ⟨e :: placed, lost, sources, [] ++ as, [⟨e, reason⟩] ++ qs, ?_, hmoves.trans hmoves',
        hsources, (hperm.cons e).trans List.perm_middle.symm, ?_⟩
      · rw [List.map_cons, hsplit]
        rfl
      · rw [hlost]
        simp only [hplace, hraises, not_false_eq_true, or_true, true_and]
    | raised reason exc hplace hraises hmoves =>
      refine ⟨[e], pending.map Prod.fst, [], [], [⟨e, reason⟩], rfl, hmoves, rfl, .refl _, ?_⟩
      rw [List.map_eq_nil_iff]
      constructor
      · rintro rfl
        exact ⟨hplace, .inl rfl, nofun, nofun⟩
      · exact fun h => h.2.1.resolve_right fun hquiet => hquiet hraises

/-! ### Runs -/

/-- The envelopes in the buffer, each with what the environment does for it. -/
def pendingOf (responses : Nat → Response P) (b : Broker P) : List (Envelope P × Response P) :=
  b.inbound.zipIdx.map fun e => (e.1, responses e.2)

/-- The call loses nothing: the payloads of the envelope that is received can be converted, and an
evaluation is not disturbed. -/
def Kept (c : Config) (s : State P) : Call P → Prop
  | .receive envelope _ => Converts envelope
  | .evaluate responses => Undisturbed c (pendingOf responses s.broker)

theorem map_fst_pendingOf (responses : Nat → Response P) (b : Broker P) :
    (pendingOf responses b).map Prod.fst = b.inbound := by
  unfold pendingOf
  rw [List.map_map]
  exact List.zipIdx_map_fst 0 b.inbound

theorem Conserved.length_eq {s : State P} (h : Conserved s) :
    s.handed.length =
      s.broker.inbound.length + s.broker.accepted.length + s.broker.quarantined.length := by
  obtain ⟨sources, hsources, hperm⟩ := h
  have hlen := congrArg List.length hsources
  rw [List.length_map, List.length_map] at hlen
  rw [hperm.length_eq, List.length_append, List.length_append, List.length_map, hlen]
  omega

theorem conserved_receive {s : State P} (hs : Conserved s) (e : Envelope P)
    (audit : Str → Option Raised) : Conserved (step c s (.receive e audit)) ↔ Converts e := by
  obtain ⟨sources, hsources, hperm⟩ := id hs
  have hlast : (s.handed ++ [e]).Perm (e :: s.handed) := List.perm_append_singleton _ _
  show Conserved ⟨s.handed ++ [e], (receiveProposal c audit s.broker e).1⟩ ↔ _
  unfold receiveProposal
  by_cases hmissing : missing P e = []
  · rcases fromDict_of_not_missing hmissing with ⟨hconv, p, hp⟩ | ⟨hconv, exc, hexc⟩
    · rw [hp]
      refine iff_of_true ⟨sources, hsources, ?_⟩ hconv
      show (s.handed ++ [e]).Perm ((s.broker.inbound ++ [e]) ++ _)
      rw [List.append_assoc]
      exact (hlast.trans (hperm.cons e)).trans List.perm_middle.symm
    · rw [hexc]
      refine iff_of_false (fun h => ?_) hconv
      -- The envelope is nowhere, so that one is missing.
      have hlen : (s.handed ++ [e]).length = s.broker.inbound.length + s.broker.accepted.length +
          s.broker.quarantined.length := h.length_eq
      rw [List.length_append, hs.length_eq, List.length_singleton] at hlen
      omega
  · obtain ⟨message, hmessage⟩ := fromDict_of_missing hmissing
    rw [hmessage]
    refine iff_of_true ⟨sources, hsources, ?_⟩ fun h => absurd h hmissing
    show (s.handed ++ [e]).Perm (s.broker.inbound ++ (sources ++
      (s.broker.quarantined ++ [QuarantineRecord.mk e message]).map (·.envelope)))
    rw [List.map_append, ← List.append_assoc sources, ← List.append_assoc s.broker.inbound]
    exact hperm.append_right [e]

theorem conserved_evaluate {s : State P} (hs : Conserved s) (responses : Nat → Response P) :
    Conserved (step c s (.evaluate responses)) ↔
      Undisturbed c (pendingOf responses s.broker) := by
  obtain ⟨sources, hsources, hperm⟩ := id hs
  obtain ⟨placed, lost, sources', as, qs, hsplit, hmoves, hsources', hplaced, hlost⟩ :=
    evaluatePending_spec c { s.broker with inbound := [] } (pendingOf responses s.broker)
  rw [map_fst_pendingOf] at hsplit
  rw [← hlost]
  show Conserved ⟨s.handed, (evaluatePending c { s.broker with inbound := [] }
    (pendingOf responses s.broker)).1⟩ ↔ _
  generalize (evaluatePending c { s.broker with inbound := [] }
    (pendingOf responses s.broker)).1 = b at hmoves
  constructor
  · intro h
    have hlen := h.length_eq
    have hlen' := congrArg List.length hsources'
    rw [List.length_map, List.length_map] at hlen'
    have hplacedLen := hplaced.length_eq
    rw [List.length_append, List.length_map, hlen'] at hplacedLen
    rw [hmoves.inbound, hmoves.accepted, hmoves.quarantined, List.length_append,
      List.length_append, hs.length_eq, hsplit, List.length_append, List.length_nil] at hlen
    dsimp only at hlen
    exact List.length_eq_zero_iff.mp (by omega)
  · rintro rfl
    rw [List.append_nil] at hsplit
    refine ⟨sources ++ sources', ?_, ?_⟩
    · rw [List.map_append, hsources, hsources', hmoves.accepted, List.map_append]
    · show s.handed.Perm (b.inbound ++ _)
      rw [hmoves.inbound, hmoves.quarantined, List.map_append, List.nil_append]
      rw [hsplit] at hperm
      -- The batch consists of the envelopes that this call accepts and puts into quarantine.
      have hbatch := (hperm.trans (hplaced.append_right _)).trans List.perm_append_comm
      rw [List.append_assoc] at hbatch ⊢
      exact hbatch.trans (List.perm_append_comm_assoc _ _ _ |>.append_left sources)

theorem conserved_initial : Conserved ({} : State P) :=
  ⟨[], rfl, .refl _⟩

/-- From a new broker on, every envelope that was handed over is in exactly one place after every
call of a run exactly when every call of the run keeps what it is given. -/
theorem conserved_iff (c : Config) (calls : List (Call P)) :
    Always (step c) Conserved {} calls ↔ Meets (step c) (Kept c) {} calls := by
  refine always_iff_meets (fun s call hs => ?_) conserved_initial
  cases call with
  | receive e audit => exact conserved_receive hs e audit
  | evaluate responses => exact conserved_evaluate hs responses

/-! ### A batch that is broken off -/

def envelope : Envelope reference :=
  required.map fun k => (.str k, if k = mutationPayloadKey ∨ k = gateDecisionPayloadKey then .dict []
    else .str (str "x"))

/-- The gate rejects, and the audit writer fails. -/
def rejecting : Response reference where
  gate := .inr (.ok [(.str (str "approved"), .bool false)])
  audit _ := some ⟨str "OSError", str "disk full"⟩

/-- In general a broker loses envelopes: here the second of two. -/
theorem not_conserved : ¬ ∀ (c : Config) (calls : List (Call reference)),
    Conserved (run (step c) {} calls) := by
  intro h
  have hlen := (h ⟨true, .failClosedCritical⟩ [.receive envelope fun _ => none,
    .receive envelope fun _ => none, .evaluate fun _ => rejecting]).length_eq
  exact absurd hlen (by decide +kernel)

end Adaad.MutationBroker
