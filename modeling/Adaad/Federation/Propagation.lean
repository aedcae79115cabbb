import Adaad.Federation.MutationBroker
import Adaad.Undo

/-!
# Propagating an amendment

`propagate_amendment` writes a mutation to several destinations.  For each of them it takes a
snapshot, asks the gate of the destination, and writes; when something raises, it puts the snapshots
of the destinations that it has written back, the last one first.

Reader, gate, writer and audit writer are not part of the broker: what they do is given for each
place in the loop (`Reply`).  The state writer puts back what the snapshot says.
-/

namespace Adaad.MutationBroker

open Py Undo

variable {P : Platform} {D S : Type}

/-! ### The environment -/

/-- The arguments of `propagate_amendment`; the destinations are references to mutable objects. -/
structure Amendment (P : Platform) (D : Type) where
  proposalId : Str
  sourceNode : Str
  destinationNodes : List D
  propagationTimestamp : Str
  evidenceBundleHash : Str
  /-- `federation_hmac_key_path` is the path of a file. -/
  hmacKeyIsFile : Bool
  authorityLevel : Str := str "governor-review"
  replayLineageConsistent : Bool := true

/-- What the environment does for one destination. -/
structure Reply (P : Platform) (S : Type) where
  /-- The state reader raises. -/
  reader : Option Raised
  /-- The gate of the destination raises, or returns a decision. -/
  gate : Raised ⊕ GateDecision P
  /-- What the mutation writer makes of the destination, also where it raises. -/
  change : S → S
  /-- The mutation writer raises. -/
  writer : Option Raised

/-! ### The loop -/

/-- A call of the gate that returned, or a call of the writer that returned. -/
inductive Event (D : Type) where
  | gated (destination : D) (approved : Bool)
  | written (destination : D)
  deriving DecidableEq, Repr

/-- The destinations, what was asked and written, and the local variables of the loop. -/
structure Progress (D S : Type) where
  states : D → S
  trace : List (Event D) := []
  rollbackEntries : List (D × S) := []
  appliedDestinations : List Str := []
  failedDestinationId : Str := str "unknown"

section loop

variable [DecidableEq D] (destinationId : D → Str)

def propagateTo (s : Progress D S) (destination : D) (r : Reply P S) :
    Progress D S × Except Raised Unit :=
  let s := { s with failedDestinationId := destinationId destination }
  match r.reader with
  | some e => (s, .error e)
  | none =>
    match r.gate with
    | .inl e => (s, .error e)
    | .inr gatePayload =>
      let gated := { s with trace := s.trace ++ [.gated destination (approved gatePayload)] }
      if ¬ approved gatePayload then
        (gated, .error ⟨str "FederationDualGateError", str "destination_gate_rejected:" ++
          (destinationId destination ++ (str ":" ++ decisionText gatePayload))⟩)
      else
        let states := Function.update s.states destination (r.change (s.states destination))
        match r.writer with
        | some e => ({ gated with states }, .error e)
        | none =>
          ({ gated with
              states
              trace := gated.trace ++ [.written destination]
              rollbackEntries := s.rollbackEntries ++ [(destination, s.states destination)]
              appliedDestinations := s.appliedDestinations ++ [destinationId destination] },
            .ok ())

/-- `for destination in ordered_destinations`; an exception ends it. -/
def propagateLoop (s : Progress D S) : List (D × Reply P S) → Progress D S × Except Raised Unit
  | [] => (s, .ok ())
  | (destination, r) :: pending =>
    let one := propagateTo destinationId s destination r
    match one.2 with
    | .error e => (one.1, .error e)
    | .ok () => propagateLoop one.1 pending

/-! ### The call -/

def propagatedEvent : Str := str "federated_amendment_propagated"
def rollbackEvent : Str := str "federated_amendment_rollback"

/-- `_ordered_destination_nodes` -/
def orderedDestinationNodes (destinationNodes : List D) : List D :=
  destinationNodes.insertionSort fun d d' => strLe (destinationId d) (destinationId d') = true

/-- The destinations in order, each with the reply to it. -/
def pendingDestinations (replies : Nat → Reply P S) (a : Amendment P D) : List (D × Reply P S) :=
  (orderedDestinationNodes destinationId a.destinationNodes).zipIdx.map fun d => (d.1, replies d.2)

def checkAmendment (a : Amendment P D) : Except Exc Unit :=
  if ¬ a.hmacKeyIsFile then .error (.runtimeError (str "federation_hmac_required"))
  else if a.authorityLevel ≠ str "governor-review" then
    .error (.runtimeError (str "PHASE6_FEDERATED_AUTHORITY_VIOLATION"))
  else if ¬ a.replayLineageConsistent then
    .error (.runtimeError (str "PHASE6_FEDERATED_REPLAY_LINEAGE_INCONSISTENT"))
  else .ok ()

def propagationPayload (a : Amendment P D) : Members P.Float :=
  [(.str (str "proposal_id"), .str a.proposalId),
    (.str (str "source_node"), .str a.sourceNode),
    (.str (str "destination_nodes"), .list
      ((orderedDestinationNodes destinationId a.destinationNodes).map fun d =>
        .str (destinationId d))),
    (.str (str "propagation_timestamp"), .str a.propagationTimestamp),
    (.str (str "evidence_bundle_hash"), .str a.evidenceBundleHash)]

/-- What a call leaves. -/
structure Propagation (P : Platform) (D S : Type) where
  states : D → S
  trace : List (Event D)
  broker : Broker P
  result : Except Exc (Members P.Float)

/-- `propagate_amendment`, on destinations in the states `states` -/
def propagateAmendment (c : Config) (audit : Str → Option Raised) (replies : Nat → Reply P S)
    (b : Broker P) (states : D → S) (a : Amendment P D) : Propagation P D S :=
  match checkAmendment a with
  | .error e => ⟨states, [], b, .error e⟩
  | .ok () =>
    let loop := propagateLoop destinationId { states } (pendingDestinations destinationId replies a)
    match loop.2 with
    | .error e =>
      let rolledBack := undo loop.1.rollbackEntries loop.1.states
      -- the diagnostic event is not a critical one
      let (b, _) := emitAudit c audit b diagnosticEvent
      let (b, written) := emitAudit c audit b rollbackEvent
      ⟨rolledBack, loop.1.trace, b, do
        written
        .error (.runtimeError (str "federated_propagation_rolled_back:" ++
          (a.proposalId ++ (str ":" ++ e.message))))⟩
    | .ok () =>
      let (b, written) := emitAudit c audit b propagatedEvent
      ⟨loop.1.states, loop.1.trace, b, do
        written
        return propagationPayload destinationId a⟩

end loop

/-- If the call raises, every destination is as it was before.  If it returns, every destination was
written exactly once, after its gate had approved. -/
def Atomic [DecidableEq D] (before : D → S) (a : Amendment P D) (after : Propagation P D S) :
    Prop :=
  match after.result with
  | .error _ => after.states = before
  | .ok _ => ∀ d ∈ a.destinationNodes, after.trace.count (.written d) = 1 ∧
      ∃ t t', after.trace = t ++ .written d :: t' ∧ .gated d true ∈ t

end Adaad.MutationBroker
