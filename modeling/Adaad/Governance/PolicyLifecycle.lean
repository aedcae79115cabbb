import Adaad.Governance.CanonLaw

/-!
# The lifecycle of a policy

`runtime/governance/policy_lifecycle.py`: a policy goes from `authoring` over `review-approved` and
`signed` to `deployed`.  A call of `apply_transition` is told the state that the policy is in and the
hash of the transition before; it checks that the step is a declared one, that the proof is for the
same artifact, and appends the transition to the journal.
-/

namespace Adaad.PolicyLifecycle

open Py CanonLaw

variable {P : Platform}

/-! ### States -/

/-- `POLICY_STATES` -/
inductive PolicyState where
  | authoring
  | reviewApproved
  | signed
  | deployed
  deriving DecidableEq, Repr

namespace PolicyState

def value : PolicyState → Str
  | authoring => str "authoring"
  | reviewApproved => str "review-approved"
  | signed => str "signed"
  | deployed => str "deployed"

def ofValue (s : Str) : Option PolicyState :=
  [authoring, reviewApproved, signed, deployed].find? fun state => state.value = s

/-- `_ALLOWED_TRANSITIONS` -/
def next : PolicyState → Option PolicyState
  | authoring => some reviewApproved
  | reviewApproved => some signed
  | signed => some deployed
  | deployed => none

end PolicyState

/-! ### Proofs and transitions -/

variable (P) in
/-- `PolicyTransitionProof` -/
structure PolicyTransitionProof where
  artifactDigest : Str
  previousTransitionHash : Str
  evidence : Dict P.Float

variable (P) in
/-- `PolicyLifecycleTransition` -/
structure PolicyLifecycleTransition where
  artifactDigest : Str
  fromState : PolicyState
  toState : PolicyState
  proof : PolicyTransitionProof P
  transitionHash : Str

variable (P) in
/-- What stops a call. -/
inductive LifecycleStop where
  /-- `PolicyLifecycleError` -/
  | lifecycle (message : Str)
  | law (e : Stop P)

/-- `_require_state` -/
def requireState (value : P.Obj) (field : Str) : Except Str PolicyState :=
  let refused := field ++
    str " must be one of ('authoring', 'review-approved', 'signed', 'deployed')"
  match value with
  | .str s =>
    match PolicyState.ofValue s with
    | some state => .ok state
    | none => .error refused
  | _ => .error refused

/-- `_require_prefixed_hash` -/
def requirePrefixedHash (value : Option P.Obj) (field : Str) : Except (LifecycleStop P) Str :=
  let refused := LifecycleStop.lifecycle (field ++ str " must be a sha256-prefixed digest")
  match value with
  | some (.str s) =>
    if (str "sha256:").isPrefixOf s ∧ s.length = (str "sha256:").length + 64 then .ok s
    else .error refused
  | _ => .error refused

/-- `d.get(key)` where it is a `dict` that is not empty. -/
def filledDict (d : Dict P.Float) (key : Str) : Option (Dict P.Float) :=
  match h : get d.items key with
  | some (.dict (m :: ms)) => some ⟨m :: ms, wf_of_get d.wf h⟩
  | _ => none

/-- `_require_proof`; a value that is no `dict` is `none`. -/
def requireProof (value : Option (Dict P.Float)) :
    Except (LifecycleStop P) (PolicyTransitionProof P) :=
  match value with
  | none => .error (.lifecycle (str "proof must be an object"))
  | some value => do
    let artifactDigest ← requirePrefixedHash (get value.items (str "artifact_digest"))
      (str "proof.artifact_digest")
    let previousTransitionHash ← requirePrefixedHash
      (get value.items (str "previous_transition_hash")) (str "proof.previous_transition_hash")
    match filledDict value (str "evidence") with
    | none => .error (.lifecycle (str "proof.evidence must be a non-empty object"))
    | some evidence => .ok { artifactDigest, previousTransitionHash, evidence }

def PolicyTransitionProof.items (proof : PolicyTransitionProof P) : Members P.Float :=
  [(.str (str "artifact_digest"), .str proof.artifactDigest),
    (.str (str "previous_transition_hash"), .str proof.previousTransitionHash),
    (.str (str "evidence"), .dict proof.evidence.items)]

theorem PolicyTransitionProof.wf (proof : PolicyTransitionProof P) :
    (Value.dict proof.items).WF := by
  refine wf_of_names [str "artifact_digest", str "previous_transition_hash", str "evidence"] rfl
    (by decide) ?_
  simp only [PolicyTransitionProof.items, List.forall_mem_cons]
  exact ⟨trivial, trivial, proof.evidence.wf, List.forall_mem_nil _⟩

/-- The items of a transition without its hash. -/
def transitionItems (artifactDigest : Str) (fromState toState : PolicyState)
    (proof : PolicyTransitionProof P) : Members P.Float :=
  [(.str (str "artifact_digest"), .str artifactDigest),
    (.str (str "from_state"), .str fromState.value), (.str (str "to_state"), .str toState.value),
    (.str (str "proof"), .dict proof.items)]

/-- `transition_digest` -/
def transitionDigest (artifactDigest : Str) (fromState toState : PolicyState)
    (proof : PolicyTransitionProof P) : Except Exc Str :=
  canonicalDigest P (.dict (transitionItems artifactDigest fromState toState proof))

def PolicyLifecycleTransition.payload (t : PolicyLifecycleTransition P) : Dict P.Float where
  items := transitionItems t.artifactDigest t.fromState t.toState t.proof ++
    [(.str (str "transition_hash"), .str t.transitionHash)]
  wf := by
    refine wf_of_names [str "artifact_digest", str "from_state", str "to_state", str "proof",
      str "transition_hash"] rfl (by decide) ?_
    simp only [transitionItems, List.cons_append, List.nil_append, List.forall_mem_cons]
    exact ⟨trivial, trivial, trivial, t.proof.wf, trivial, List.forall_mem_nil _⟩

/-! ### `apply_transition` -/

variable (P) in
/-- The arguments of a call; a proof that is no `dict` is `none`. -/
structure Arguments where
  artifactDigest : P.Obj
  fromState : P.Obj
  toState : P.Obj
  proof : Option (Dict P.Float)
  fromState_wf : fromState.WF
  toState_wf : toState.WF

/-- `str(b)` -/
def boolText (b : Bool) : Str :=
  if b then str "True" else str "False"

/-- What `_record` returns. -/
structure Recorded where
  clause : CanonClause
  escalation : Str
  ledgerHash : Str

variable (u : Letters P)

/-- `_record`: the breach of a clause goes to the journal. -/
def record (clauses : List (Str × CanonClause)) (clauseId reason : Str) (context : Dict P.Float)
    (clock : Journal.Clock) (w : Journal.World) : Except (Stop P) Recorded × Journal.World :=
  match clauses.lookup clauseId with
  | none => (.error (.keyError clauseId), w)
  | some clause =>
    match emitViolationEvent u (str "policy_lifecycle") clause reason context clock w with
    | (.error e, w) => (.error (.fault e), w)
    | (.ok entry, w) =>
      match oneWayEscalation (str "advisory") clause.escalation with
      | .error e => (.error (.canonLaw e), w)
      | .ok escalation =>
        (.ok ⟨clause, escalation, ((get entry (str "hash")).map (toStr P)).getD []⟩, w)

/-- The breach is recorded, and the call raises with this message. -/
def breach (clauses : List (Str × CanonClause)) (clauseId reason : Str) (context : Dict P.Float)
    (message : Recorded → Str) (clock : Journal.Clock) (w : Journal.World) :
    Except (LifecycleStop P) (PolicyLifecycleTransition P) × Journal.World :=
  match record u clauses clauseId reason context clock w with
  | (.error e, w) => (.error (.law e), w)
  | (.ok event, w) => (.error (.lifecycle (message event)), w)

/-- `escalation=…; mutation_blocked=…; fail_closed=…; ledger_hash=…` -/
def blockedText (event : Recorded) : Str :=
  str "escalation=" ++ event.escalation ++ str "; mutation_blocked=" ++
    boolText event.clause.mutationBlock ++ str "; fail_closed=" ++
      boolText event.clause.failClosed ++ str "; ledger_hash=" ++ event.ledgerHash

/-- `repr` of a state, or of `None`. -/
def stateRepr : Option PolicyState → Str
  | some state => [39] ++ state.value ++ [39]
  | none => str "None"

def undefinedContext (args : Arguments P) (message : Str) : Dict P.Float where
  items := [(.str (str "from_state"), args.fromState), (.str (str "to_state"), args.toState),
    (.str (str "error"), .str message)]
  wf := by
    refine wf_of_names [str "from_state", str "to_state", str "error"] rfl (by decide) ?_
    simp only [List.forall_mem_cons]
    exact ⟨args.fromState_wf, args.toState_wf, trivial, List.forall_mem_nil _⟩

/-- The context of a step that is not declared. -/
def invalidContext (fromState toState : PolicyState) : Dict P.Float where
  items := [(.str (str "from_state"), .str fromState.value),
    (.str (str "to_state"), .str toState.value),
    (.str (str "expected_next"), fromState.next.elim .none fun state => .str state.value)]
  wf := by
    refine wf_of_names [str "from_state", str "to_state", str "expected_next"] rfl (by decide) ?_
    simp only [List.forall_mem_cons]
    refine ⟨trivial, trivial, ?_, List.forall_mem_nil _⟩
    cases fromState <;> trivial

/-- The context of a proof for another artifact. -/
def mismatchContext (artifactDigest proofDigest : Str) : Dict P.Float where
  items := [(.str (str "artifact_digest"), .str artifactDigest),
    (.str (str "proof_digest"), .str proofDigest)]
  wf := by
    refine wf_of_names [str "artifact_digest", str "proof_digest"] rfl (by decide) ?_
    simp only [List.forall_mem_cons]
    exact ⟨trivial, trivial, List.forall_mem_nil _⟩

/-- The transition, from its parts; the digest may raise. -/
def transitionOf (artifactDigest : Str) (fromState toState : PolicyState)
    (proof : PolicyTransitionProof P) :
    Except (LifecycleStop P) (PolicyLifecycleTransition P) := do
  let transitionHash ← (transitionDigest artifactDigest fromState toState proof).mapError
    (.law ∘ .fault ∘ .raised)
  return { artifactDigest, fromState, toState, proof, transitionHash }

/-- The end of `apply_transition`: the transition goes to the journal. -/
def commit (t : PolicyLifecycleTransition P) (clock : Journal.Clock) (w : Journal.World) :
    Except (LifecycleStop P) (PolicyLifecycleTransition P) × Journal.World :=
  match Journal.appendTx P
      { txType := str "policy_lifecycle_transition"
        payload := t.payload
        txId := some (str "POLICY-" ++ u.upper t.toState.value)
        tenantContext := [] } clock w with
  | (.error e, w) => (.error (.law (.fault e)), w)
  | (.ok _, w) => (.ok t, w)

def requireStates (args : Arguments P) : Except Str (PolicyState × PolicyState) := do
  let fromState ← requireState args.fromState (str "from_state")
  let toState ← requireState args.toState (str "to_state")
  return (fromState, toState)

/-- The digest of the artifact, and the proof. -/
def requireDigests (args : Arguments P) :
    Except (LifecycleStop P) (Str × PolicyTransitionProof P) := do
  let digest ← requirePrefixedHash (some args.artifactDigest) (str "artifact_digest")
  let proof ← requireProof args.proof
  return (digest, proof)

/-- `apply_transition`, with the bytes of the canon law. -/
def applyTransition (artifact : Bytes) (args : Arguments P) (clock : Journal.Clock)
    (w : Journal.World) :
    Except (LifecycleStop P) (PolicyLifecycleTransition P) × Journal.World :=
  match loadCanonLaw P artifact with
  | .error e => (.error (.law e), w)
  | .ok clauses =>
    match requireStates args with
    | .error message =>
      breach u clauses (str "VIII.undefined_state_fail_closed") (str "undefined_state")
        (undefinedContext args message) (fun event => message ++ str "; " ++ blockedText event)
        clock w
    | .ok (fromState, toState) =>
      if fromState.next ≠ some toState then
        breach u clauses (str "VI.lifecycle_transition_must_be_declared")
          (str "invalid_transition") (invalidContext fromState toState)
          (fun event => str "invalid transition " ++ stateRepr (some fromState) ++ str " -> " ++
            stateRepr (some toState) ++ str "; expected " ++ stateRepr fromState.next ++
              str "; escalation=" ++ event.escalation ++ str "; ledger_hash=" ++ event.ledgerHash)
          clock w
      else
        match requireDigests args with
        | .error e => (.error e, w)
        | .ok (digest, proof) =>
          if proof.artifactDigest ≠ digest then
            breach u clauses (str "VII.lifecycle_proof_must_match_artifact")
              (str "proof_digest_mismatch") (mismatchContext digest proof.artifactDigest)
              (fun event => str "proof.artifact_digest must match artifact_digest; " ++
                blockedText event) clock w
          else
            match transitionOf digest fromState toState proof with
            | .error e => (.error e, w)
            | .ok t => commit u t clock w

end Adaad.PolicyLifecycle
