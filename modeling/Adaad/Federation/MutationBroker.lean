import Adaad.Py.Json.Dumps
import Adaad.Py.TextFile
import Adaad.Run

/-!
# The mutation broker

The destination side of `FederationMutationBroker`: envelopes are received into a buffer, and a call
of `evaluate_inbound_proposals` takes them all out of it and runs each through the gate of the
destination.

The gate and the audit writer are not part of the broker.  What they do is given with each call, for
each envelope that it comes to: `Response`.
-/

namespace Adaad.MutationBroker

open Py

variable (P : Platform)

/-- An envelope: the `dict` that comes over the wire. -/
abbrev Envelope := Members P.Float

/-- The payload of a proposal; `none` is a `dict` that `json` does not write. -/
abbrev Payload := Option (Members P.Float)

structure FederatedMutationProposal where
  proposalId : Str
  sourceRepo : Str
  sourceEpochId : Str
  sourceMutationId : Str
  sourceChainDigest : Str
  destinationRepo : Str
  mutationPayload : Payload P
  gateDecisionPayload : Payload P
  federationGateId : Str
  schemaVersion : Str

/-! ### Fields -/

def proposalIdKey : Str := str "proposal_id"
def sourceRepoKey : Str := str "source_repo"
def sourceEpochIdKey : Str := str "source_epoch_id"
def sourceMutationIdKey : Str := str "source_mutation_id"
def sourceChainDigestKey : Str := str "source_chain_digest"
def destinationRepoKey : Str := str "destination_repo"
def mutationPayloadKey : Str := str "mutation_payload"
def gateDecisionPayloadKey : Str := str "gate_decision_payload"
def federationGateIdKey : Str := str "federation_gate_id"
def schemaVersionKey : Str := str "schema_version"

/-- The required fields, in alphabetical order. -/
def required : List Str :=
  [destinationRepoKey, gateDecisionPayloadKey, mutationPayloadKey, proposalIdKey,
    sourceChainDigestKey, sourceEpochIdKey, sourceMutationIdKey, sourceRepoKey]

/-- `sorted(required - set(data))` -/
def missing (data : Envelope P) : List Str :=
  required.filter fun k => (get data k).isNone

/-- `repr` of a list of field names. -/
def reprNames (names : List Str) : Str :=
  str "[" ++ ((str ", ").intercalate (names.map fun n => str "'" ++ (n ++ str "'")) ++ str "]")

/-- Why `from_dict` fails: a `FederationProposalValidationError`, or an exception that converting a
field raises. -/
inductive FromDictError where
  | validation (message : Str)
  | conversion (e : Exc)
  deriving DecidableEq, Repr

/-- `data[k]`, once the fields are known to be there. -/
def item (data : Envelope P) (k : Str) : P.Obj :=
  (get data k).getD .none

def textItem (data : Envelope P) (k : Str) : Str :=
  toStr P (item P data k)

/-- `dict(data[k])` -/
def dictItem (data : Envelope P) (k : Str) : Except FromDictError (Payload P) :=
  (dictOfValue P (item P data k)).mapError .conversion

/-- `str(data.get(k, default))` -/
def textItemOr (data : Envelope P) (k default : Str) : Str :=
  ((get data k).map (toStr P)).getD default

/-- `FederatedMutationProposal.from_dict` -/
def fromDict (data : Envelope P) : Except FromDictError (FederatedMutationProposal P) :=
  if missing P data = [] then do
    let mutationPayload ← dictItem P data mutationPayloadKey
    let gateDecisionPayload ← dictItem P data gateDecisionPayloadKey
    return {
      proposalId := textItem P data proposalIdKey
      sourceRepo := textItem P data sourceRepoKey
      sourceEpochId := textItem P data sourceEpochIdKey
      sourceMutationId := textItem P data sourceMutationIdKey
      sourceChainDigest := textItem P data sourceChainDigestKey
      destinationRepo := textItem P data destinationRepoKey
      mutationPayload := mutationPayload
      gateDecisionPayload := gateDecisionPayload
      federationGateId := textItemOr P data federationGateIdKey []
      schemaVersion := textItemOr P data schemaVersionKey (str "federation_mutation_proposal.v1") }
  else
    .error (.validation (str "federation_proposal:missing_fields:" ++ reprNames (missing P data)))

variable {P}

/-! ### Digests -/

/-- `proposal.to_dict()`; `none` where a payload is not written. -/
def FederatedMutationProposal.toDict (p : FederatedMutationProposal P) : Option P.Obj := do
  let gateDecisionPayload ← p.gateDecisionPayload
  let mutationPayload ← p.mutationPayload
  return .dict [
    (.str destinationRepoKey, .str p.destinationRepo),
    (.str federationGateIdKey, .str p.federationGateId),
    (.str gateDecisionPayloadKey, .dict gateDecisionPayload),
    (.str mutationPayloadKey, .dict mutationPayload),
    (.str proposalIdKey, .str p.proposalId),
    (.str schemaVersionKey, .str p.schemaVersion),
    (.str sourceChainDigestKey, .str p.sourceChainDigest),
    (.str sourceEpochIdKey, .str p.sourceEpochId),
    (.str sourceMutationIdKey, .str p.sourceMutationId),
    (.str sourceRepoKey, .str p.sourceRepo)]

/-- `"sha256:" + sha256(text.encode("utf-8"))` -/
def sha256Of (P : Platform) (text : Str) : Except Exc Str :=
  (writeText text).map fun b => str "sha256:" ++ P.sha256 b

/-- `proposal.digest()`; writing keys that `json` does not write or sort is a `TypeError`. -/
def FederatedMutationProposal.digest (p : FederatedMutationProposal P) : Except Exc Str :=
  match p.toDict.bind (dumpsSorted P .compact) with
  | some text => sha256Of P text
  | none => .error .typeError

/-- What the gate decides, as `to_payload` has it. -/
abbrev GateDecision (P : Platform) := Members P.Float

/-- `dest_payload.get("decision_id", "")`, which is put behind a text. -/
def decisionId (d : GateDecision P) : Except Exc Str :=
  match get d (str "decision_id") with
  | none => .ok []
  | some (.str s) => .ok s
  | some _ => .error .typeError

/-- `acceptance_digest` -/
def acceptanceDigest (p : FederatedMutationProposal P) (d : GateDecision P) : Except Exc Str := do
  let digest ← p.digest
  let id ← decisionId d
  sha256Of P (digest ++ id)

/-! ### The broker -/

structure AcceptedFederatedMutation (P : Platform) where
  proposal : FederatedMutationProposal P
  destinationGateDecisionPayload : GateDecision P
  acceptanceDigest : Str

structure QuarantineRecord (P : Platform) where
  envelope : Envelope P
  reason : Str

structure FederationAuditStatus where
  eventType : Str
  ok : Bool
  reason : Str
  errorType : Option Str
  deriving DecidableEq, Repr

/-- `self._inbound`, `self._accepted`, `self._quarantined` and `self._last_audit_status` -/
structure Broker (P : Platform) where
  inbound : List (Envelope P) := []
  accepted : List (AcceptedFederatedMutation P) := []
  quarantined : List (QuarantineRecord P) := []
  lastAuditStatus : Option FederationAuditStatus := none

inductive FederationAuditFailureMode where
  | failOpen
  | failClosedCritical
  deriving DecidableEq, Repr

/-- How a broker is set up. -/
structure Config where
  /-- There is an audit writer. -/
  audited : Bool
  auditFailureMode : FederationAuditFailureMode

/-- An exception of the audit writer or of the gate. -/
structure Raised where
  className : Str
  message : Str
  deriving DecidableEq, Repr

/-- What the environment does for one envelope. -/
structure Response (P : Platform) where
  /-- `approve_mutation`: it raises, or returns a decision, whose payload may fail to be built. -/
  gate : Raised ⊕ Except Exc (GateDecision P)
  /-- The audit writer raises on this event. -/
  audit : Str → Option Raised

def quarantinedEvent : Str := str "federation_mutation_quarantined"
def acceptedEvent : Str := str "federation_mutation_accepted"
def rejectedEvent : Str := str "federation_mutation_destination_rejected"
def diagnosticEvent : Str := str "federation_mutation_diagnostic_warning.v1"

def criticalAuditEvents : List Str :=
  [str "federated_amendment_propagated", str "federated_amendment_rollback", quarantinedEvent,
    str "federation_partition_detected.v1"]

/-- The event is not written, and that is an error. -/
def failsClosed (c : Config) (audit : Str → Option Raised) (eventType : Str) : Bool :=
  c.audited && (audit eventType).isSome && c.auditFailureMode == .failClosedCritical &&
    criticalAuditEvents.contains eventType

/-- The status that `_emit_audit` leaves. -/
def auditStatus (c : Config) (audit : Str → Option Raised) (eventType : Str) :
    FederationAuditStatus :=
  if c.audited then
    match audit eventType with
    | none => ⟨eventType, true, str "persisted", none⟩
    | some e => ⟨eventType, false, str "audit_persistence_failed", some e.className⟩
  else ⟨eventType, true, str "audit_writer_not_configured", none⟩

/-- The error that `_emit_audit` raises. -/
def auditError (audit : Str → Option Raised) (eventType : Str) : Exc :=
  let e := (audit eventType).getD ⟨[], []⟩
  .runtimeError (str "audit_persistence_failed:" ++ (eventType ++ (str ":" ++ (e.className ++
    (str ":" ++ e.message)))))

/-- `_emit_audit` -/
def emitAudit (c : Config) (audit : Str → Option Raised) (b : Broker P) (eventType : Str) :
    Broker P × Except Exc Unit :=
  ({ b with lastAuditStatus := some (auditStatus c audit eventType) },
    if failsClosed c audit eventType then .error (auditError audit eventType) else .ok ())

/-- `_quarantine`: the record is there before the event is written. -/
def quarantine (c : Config) (audit : Str → Option Raised) (b : Broker P) (envelope : Envelope P)
    (reason : Str) : Broker P × Except Exc Unit :=
  emitAudit c audit { b with quarantined := b.quarantined ++ [⟨envelope, reason⟩] }
    quarantinedEvent

/-- `receive_proposal` -/
def receiveProposal (c : Config) (audit : Str → Option Raised) (b : Broker P)
    (envelope : Envelope P) : Broker P × Except Exc Unit :=
  match fromDict P envelope with
  | .ok _ => ({ b with inbound := b.inbound ++ [envelope] }, .ok ())
  | .error (.validation message) => quarantine c audit b envelope message
  | .error (.conversion e) => (b, .error e)

/-- `dest_payload.get("approved")` -/
def approved (d : GateDecision P) : Bool :=
  ((get d (str "approved")).map (truthy P)).getD false

/-- `str(dest_payload.get("decision", ""))` -/
def decisionText (d : GateDecision P) : Str :=
  ((get d (str "decision")).map (toStr P)).getD []

/-- What is done with a proposal, once the gate has been asked. -/
inductive Verdict (P : Platform) where
  | gateRaised (reason : Str)
  | rejected (reason : Str)
  | accepted (m : AcceptedFederatedMutation P)

/-- The verdict on a proposal; building it may fail. -/
def judge (p : FederatedMutationProposal P) :
    Raised ⊕ Except Exc (GateDecision P) → Except Exc (Verdict P)
  | .inl e => .ok (.gateRaised (str "destination_gate_raised:" ++ e.message))
  | .inr decision => do
    let d ← decision
    if approved d then do
      let digest ← acceptanceDigest p d
      return .accepted ⟨p, d, digest⟩
    else
      return .rejected (str "destination_gate_rejected:" ++ decisionText d)

/-- What comes after a call that may have raised. -/
def andThen {α : Type} (x : Broker P × Except Exc Unit)
    (f : Broker P → Broker P × Except Exc α) : Broker P × Except Exc α :=
  match x.2 with
  | .ok _ => f x.1
  | .error e => (x.1, .error e)

/-- The body of the loop of `evaluate_inbound_proposals`; the mutation is the one it accepts. -/
def evaluateProposal (c : Config) (b : Broker P) (envelope : Envelope P) (r : Response P) :
    Broker P × Except Exc (Option (AcceptedFederatedMutation P)) :=
  match fromDict P envelope with
  | .error (.validation message) =>
    andThen (quarantine c r.audit b envelope message) fun b => (b, .ok none)
  | .error (.conversion e) => (b, .error e)
  | .ok p =>
    match judge p r.gate with
    | .error e => (b, .error e)
    | .ok (.gateRaised reason) =>
      andThen (emitAudit c r.audit b diagnosticEvent) fun b =>
        andThen (quarantine c r.audit b envelope reason) fun b => (b, .ok none)
    | .ok (.rejected reason) =>
      andThen (quarantine c r.audit b envelope reason) fun b =>
        andThen (emitAudit c r.audit b rejectedEvent) fun b => (b, .ok none)
    | .ok (.accepted m) =>
      andThen (emitAudit c r.audit { b with accepted := b.accepted ++ [m] } acceptedEvent) fun b =>
        (b, .ok (some m))

/-- The loop of `evaluate_inbound_proposals` over the envelopes that are left; an exception ends
it. -/
def evaluatePending (c : Config) (b : Broker P) :
    List (Envelope P × Response P) → Broker P × Except Exc (List (AcceptedFederatedMutation P))
  | [] => (b, .ok [])
  | (envelope, r) :: pending =>
    let one := evaluateProposal c b envelope r
    match one.2 with
    | .error e => (one.1, .error e)
    | .ok m =>
      let rest := evaluatePending c one.1 pending
      (rest.1, rest.2.map fun ms => m.toList ++ ms)

/-- `evaluate_inbound_proposals`, where `responses` has one for each place in the buffer. -/
def evaluateInboundProposals (c : Config) (responses : Nat → Response P) (b : Broker P) :
    Broker P × Except Exc (List (AcceptedFederatedMutation P)) :=
  let pending := b.inbound.zipIdx.map fun e => (e.1, responses e.2)
  evaluatePending c { b with inbound := [] } pending

/-! ### Runs -/

/-- A broker, and the envelopes that were handed to `receive_proposal`. -/
structure State (P : Platform) where
  handed : List (Envelope P) := []
  broker : Broker P := {}

inductive Call (P : Platform) where
  | receive (envelope : Envelope P) (audit : Str → Option Raised)
  | evaluate (responses : Nat → Response P)

/-- The state after a call, which may have raised. -/
def step (c : Config) (s : State P) : Call P → State P
  | .receive envelope audit =>
    ⟨s.handed ++ [envelope], (receiveProposal c audit s.broker envelope).1⟩
  | .evaluate responses => { s with broker := (evaluateInboundProposals c responses s.broker).1 }

/-- Every envelope that was handed over is in one place: in the buffer, or it is that of an accepted
proposal, or in quarantine. -/
def Conserved (s : State P) : Prop :=
  ∃ sources : List (Envelope P),
    sources.map (fromDict P) = s.broker.accepted.map (fun m => .ok m.proposal) ∧
    s.handed.Perm (s.broker.inbound ++ (sources ++ s.broker.quarantined.map (·.envelope)))

end Adaad.MutationBroker

/-!
## The two gates of a federated mutation

The source side of `FederationMutationBroker`: a mutation that the gate of this repository has
approved is packaged into a proposal for another one.  This is the only place where the broker looks
at the decision of the source; what comes in is not asked for it.

`DualGate` is what the module promises of the accepted proposals.
-/

namespace Adaad.MutationBroker

open Py

variable (P : Platform)

/-! ### Proposing -/

/-- The arguments of `propose_federated_mutation`. -/
structure ProposeRequest where
  sourceEpochId : Str
  sourceMutationId : Str
  destinationRepo : Str
  mutationPayload : Members P.Float
  gateDecisionPayload : Members P.Float

def proposedEvent : Str := str "federation_mutation_proposed"

/-- `hashlib.sha256(text.encode("utf-8")).hexdigest()` -/
def hexdigest (text : Str) : Except Exc Str :=
  (writeText text).map P.sha256

/-- `str(uuid.UUID(hex))` -/
def uuidText (hex : Str) : Str :=
  (str "-").intercalate
    [hex.take 8, (hex.drop 8).take 4, (hex.drop 12).take 4, (hex.drop 16).take 4, hex.drop 20]

/-- `str(self._chain_digest_fn() or "sha256:" + "0" * 64)` -/
def chainDigestText (chainDigest : P.Obj) : Str :=
  if truthy P chainDigest then toStr P chainDigest
  else str "sha256:" ++ List.replicate 64 48

/-- The proposal that `propose_federated_mutation` packages, in the repository `localRepo`. -/
def packageProposal (localRepo : Str) (chainDigest : Except Exc P.Obj) (r : ProposeRequest P) :
    Except Exc (FederatedMutationProposal P) := do
  if ¬ approved r.gateDecisionPayload then
    .error (.runtimeError (str ("federation_broker:source_gate_not_approved — only mutations " ++
      "approved by the source GovernanceGate may be propagated")))
  else
    let digest ← chainDigest
    let gateDigest ← hexdigest P ((str "|").intercalate
      [localRepo, r.sourceEpochId, r.sourceMutationId, r.destinationRepo])
    let federationGateId := str "fgate-" ++ gateDigest.take 16
    let idDigest ← hexdigest P (federationGateId ++ r.sourceMutationId)
    return {
      proposalId := uuidText (idDigest.take 32)
      sourceRepo := localRepo
      sourceEpochId := r.sourceEpochId
      sourceMutationId := r.sourceMutationId
      sourceChainDigest := chainDigestText P digest
      destinationRepo := r.destinationRepo
      mutationPayload := some r.mutationPayload
      gateDecisionPayload := some r.gateDecisionPayload
      federationGateId
      schemaVersion := str "federation_mutation_proposal.v1" }

/-- A broker with the proposals that it has packaged. -/
structure Node where
  outbound : List (FederatedMutationProposal P) := []
  broker : Broker P := {}

variable {P}

/-- `propose_federated_mutation`: the event is not a critical one, so that writing it does not
raise. -/
def proposeFederatedMutation (c : Config) (localRepo : Str) (chainDigest : Except Exc P.Obj)
    (audit : Str → Option Raised) (n : Node P) (r : ProposeRequest P) :
    Node P × Except Exc (FederatedMutationProposal P) :=
  match packageProposal P localRepo chainDigest r with
  | .error e => (n, .error e)
  | .ok proposal =>
    (⟨n.outbound ++ [proposal], (emitAudit c audit n.broker proposedEvent).1⟩, .ok proposal)

/-! ### Runs -/

/-- The calls of a broker, on either side. -/
inductive Operation (P : Platform) where
  | propose (chainDigest : Except Exc P.Obj) (audit : Str → Option Raised) (r : ProposeRequest P)
  | receive (envelope : Envelope P) (audit : Str → Option Raised)
  | evaluate (responses : Nat → Response P)

/-- The broker after a call, which may have raised. -/
def operate (c : Config) (localRepo : Str) (n : Node P) : Operation P → Node P
  | .propose chainDigest audit r => (proposeFederatedMutation c localRepo chainDigest audit n r).1
  | .receive envelope audit => { n with broker := (receiveProposal c audit n.broker envelope).1 }
  | .evaluate responses => { n with broker := (evaluateInboundProposals c responses n.broker).1 }

/-- `proposal.gate_decision_payload.get("approved")` -/
def FederatedMutationProposal.sourceApproved (p : FederatedMutationProposal P) : Bool :=
  p.gateDecisionPayload.any approved

/-- Every accepted proposal was approved by both gates and is addressed to this repository, and none
was accepted twice. -/
structure DualGate (localRepo : Str) (accepted : List (AcceptedFederatedMutation P)) : Prop where
  source : ∀ m ∈ accepted, m.proposal.sourceApproved = true
  destination : ∀ m ∈ accepted, approved m.destinationGateDecisionPayload = true
  addressed : ∀ m ∈ accepted, m.proposal.destinationRepo = localRepo
  distinct : (accepted.map (·.proposal.proposalId)).Nodup

end Adaad.MutationBroker
