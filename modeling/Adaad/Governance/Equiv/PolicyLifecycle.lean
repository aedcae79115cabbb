import Adaad.Governance.PolicyLifecycle

/-!
# The path of a policy

A successful call takes one declared step, with a proof for the same artifact, and its hash is over
the proof (`applyTransition_eq_ok`).  No call knows of those before: the state that the policy is in
and the hash of the transition before are what the caller says.  Where the callers give the state that
the artifact was left in, a policy is deployed only after it was approved and then signed
(`onPath_of_told`).
-/

namespace Adaad.PolicyLifecycle

open Py CanonLaw

variable {P : Platform} {u : Letters P}

/-! ### One call -/

theorem breach_ne_ok {clauses : List (Str × CanonClause)} {clauseId reason : Str}
    {context : Dict P.Float} {message : Recorded → Str} {clock : Journal.Clock}
    {w : Journal.World} {t : PolicyLifecycleTransition P} :
    (breach u clauses clauseId reason context message clock w).1 ≠ .ok t := by
  intro h
  unfold breach at h
  split at h <;> cases h

theorem of_transitionOf {digest : Str} {fromState toState : PolicyState}
    {proof : PolicyTransitionProof P} {t : PolicyLifecycleTransition P}
    (h : transitionOf digest fromState toState proof = .ok t) :
    t.artifactDigest = digest ∧ t.fromState = fromState ∧ t.toState = toState ∧ t.proof = proof ∧
      transitionDigest digest fromState toState proof = .ok t.transitionHash := by
  unfold transitionOf at h
  obtain ⟨hash, hhash, h⟩ := bind_eq_ok.mp h
  obtain rfl := Except.ok.inj h
  exact ⟨rfl, rfl, rfl, rfl, mapError_eq_ok.mp hhash⟩

/-- A transition that a call may return: a declared step, with a proof for the artifact, and the hash
over both. -/
structure Valid (t : PolicyLifecycleTransition P) : Prop where
  declared : t.fromState.next = some t.toState
  proof : t.proof.artifactDigest = t.artifactDigest
  hash : transitionDigest t.artifactDigest t.fromState t.toState t.proof = .ok t.transitionHash

theorem applyTransition_eq_ok {artifact : Bytes} {args : Arguments P} {clock : Journal.Clock}
    {w : Journal.World} {t : PolicyLifecycleTransition P}
    (h : (applyTransition u artifact args clock w).1 = .ok t) :
    Valid t ∧ requireStates args = .ok (t.fromState, t.toState) ∧
      requireDigests args = .ok (t.artifactDigest, t.proof) := by
  unfold applyTransition at h
  cases hlaw : loadCanonLaw P artifact with
  | error e =>
    rw [hlaw] at h
    cases h
  | ok clauses =>
    rw [hlaw] at h
    dsimp only at h
    cases hstates : requireStates args with
    | error message =>
      rw [hstates] at h
      exact absurd h breach_ne_ok
    | ok states =>
      rw [hstates] at h
      dsimp only at h
      split_ifs at h with hnext
      · exact absurd h breach_ne_ok
      · cases hdigests : requireDigests args with
        | error e =>
          rw [hdigests] at h
          cases h
        | ok digests =>
          rw [hdigests] at h
          dsimp only at h
          split_ifs at h with hproof
          · exact absurd h breach_ne_ok
          · cases ht : transitionOf digests.1 states.1 states.2 digests.2 with
            | error e =>
              rw [ht] at h
              cases h
            | ok t' =>
              rw [ht] at h
              dsimp only at h
              unfold commit at h
              split at h
              · cases h
              · obtain rfl := Except.ok.inj h
                obtain ⟨hartifact, hfrom, hto, hproofs, hhash⟩ := of_transitionOf ht
                rw [not_not] at hnext hproof
                refine ⟨⟨?_, ?_, ?_⟩, ?_, ?_⟩
                · rw [hfrom, hto, hnext]
                · rw [hproofs, hartifact, hproof]
                · rw [hartifact, hfrom, hto, hproofs, hhash]
                · rw [hfrom, hto]
                · rw [hartifact, hproofs]

/-! ### Sequences of calls -/

variable (P) in
/-- A call, with all that it reads: the canon law, the clock, and the journal, which others may have
written to since the call before. -/
structure Call where
  law : Bytes
  args : Arguments P
  clock : Journal.Clock
  world : Journal.World

variable (u) in
/-- The calls succeed, and return these transitions. -/
def Succeed (calls : List (Call P)) (ts : List (PolicyLifecycleTransition P)) : Prop :=
  List.Forall₂ (fun call t => (applyTransition u call.law call.args call.clock call.world).1 = .ok t)
    calls ts

def preceding (past : List (PolicyLifecycleTransition P)) (digest : Str) :
    Option (PolicyLifecycleTransition P) :=
  (past.filter fun t => t.artifactDigest = digest).getLast?

def stateAfter (past : List (PolicyLifecycleTransition P)) (digest : Str) : PolicyState :=
  (preceding past digest).elim .authoring PolicyLifecycleTransition.toState

/-- The artifact was moved to `review-approved`, and later to `signed`. -/
def Approved (past : List (PolicyLifecycleTransition P)) (digest : Str) : Prop :=
  ∃ r s : PolicyLifecycleTransition P, [r, s].Sublist past ∧
    r.artifactDigest = digest ∧ r.toState = .reviewApproved ∧
      s.artifactDigest = digest ∧ s.toState = .signed

/-- What comes before each transition is as it should be. -/
def Each (Q : List (PolicyLifecycleTransition P) → PolicyLifecycleTransition P → Prop)
    (ts : List (PolicyLifecycleTransition P)) : Prop :=
  ∀ past t rest, ts = past ++ t :: rest → Q past t

/-- A policy is deployed after it was approved and signed. -/
def OnPath (past : List (PolicyLifecycleTransition P)) (t : PolicyLifecycleTransition P) : Prop :=
  t.toState = .deployed → Approved past t.artifactDigest

/-- The proof names the transition of the artifact before. -/
def Linked (past : List (PolicyLifecycleTransition P)) (t : PolicyLifecycleTransition P) : Prop :=
  ∀ t₀, preceding past t.artifactDigest = some t₀ →
    t.proof.previousTransitionHash = t₀.transitionHash

/-- The caller gives the state that the artifact was left in. -/
def Told (past : List (PolicyLifecycleTransition P)) (t : PolicyLifecycleTransition P) : Prop :=
  t.fromState = stateAfter past t.artifactDigest

theorem Each.of_concat {Q : List (PolicyLifecycleTransition P) → PolicyLifecycleTransition P → Prop}
    {ts : List (PolicyLifecycleTransition P)} {t : PolicyLifecycleTransition P}
    (h : Each Q (ts ++ [t])) : Each Q ts ∧ Q ts t := by
  refine ⟨fun past t' rest heq => h past t' (rest ++ [t]) ?_, h ts t [] rfl⟩
  rw [heq, List.append_assoc, List.cons_append]

theorem Each.concat {Q : List (PolicyLifecycleTransition P) → PolicyLifecycleTransition P → Prop}
    {ts : List (PolicyLifecycleTransition P)} {t : PolicyLifecycleTransition P}
    (h : Each Q ts) (ht : Q ts t) : Each Q (ts ++ [t]) := by
  intro past t' rest heq
  rcases List.eq_nil_or_concat rest with rfl | ⟨rest', last, rfl⟩
  · obtain ⟨rfl, hlast⟩ := List.append_inj' heq rfl
    obtain rfl := (List.cons.inj hlast).1
    exact ht
  · rw [List.concat_eq_append, ← List.cons_append, ← List.append_assoc] at heq
    obtain ⟨rfl, -⟩ := List.append_inj' heq rfl
    exact h past t' rest' rfl

/-! ### The path -/

/-- What was done to an artifact that is in a state. -/
def Trail (past : List (PolicyLifecycleTransition P)) (digest : Str) : PolicyState → Prop
  | .authoring => True
  | .reviewApproved => ∃ r ∈ past, r.artifactDigest = digest ∧ r.toState = .reviewApproved
  | .signed => Approved past digest
  | .deployed => Approved past digest

theorem Approved.append {past : List (PolicyLifecycleTransition P)} {digest : Str}
    (h : Approved past digest) (t : PolicyLifecycleTransition P) : Approved (past ++ [t]) digest := by
  obtain ⟨r, s, hsub, hrest⟩ := h
  exact ⟨r, s, hsub.trans (List.sublist_append_left _ _), hrest⟩

theorem Trail.append {past : List (PolicyLifecycleTransition P)} {digest : Str} {state : PolicyState}
    (h : Trail past digest state) (t : PolicyLifecycleTransition P) :
    Trail (past ++ [t]) digest state := by
  cases state with
  | authoring => trivial
  | reviewApproved =>
    obtain ⟨r, hr, hrest⟩ := h
    exact ⟨r, List.mem_append_left _ hr, hrest⟩
  | signed => exact Approved.append h t
  | deployed => exact Approved.append h t

theorem Trail.step {past : List (PolicyLifecycleTransition P)} {t : PolicyLifecycleTransition P}
    (h : Trail past t.artifactDigest t.fromState) (hnext : t.fromState.next = some t.toState) :
    Trail (past ++ [t]) t.artifactDigest t.toState := by
  cases hfrom : t.fromState with
  | authoring =>
    rw [hfrom] at hnext
    obtain hto := (Option.some.inj hnext).symm
    rw [hto]
    exact ⟨t, List.mem_append_right _ (List.mem_singleton_self t), rfl, hto⟩
  | reviewApproved =>
    rw [hfrom] at hnext h
    obtain hto := (Option.some.inj hnext).symm
    obtain ⟨r, hr, hartifact, hreviewed⟩ := h
    rw [hto]
    refine ⟨r, t, ?_, hartifact, hreviewed, rfl, hto⟩
    exact (List.singleton_sublist.mpr hr).append (List.Sublist.refl [t])
  | signed =>
    rw [hfrom] at hnext h
    obtain hto := (Option.some.inj hnext).symm
    rw [hto]
    exact Approved.append h t
  | deployed =>
    rw [hfrom] at hnext
    cases hnext

theorem stateAfter_concat (past : List (PolicyLifecycleTransition P))
    (t : PolicyLifecycleTransition P) (digest : Str) :
    stateAfter (past ++ [t]) digest =
      if t.artifactDigest = digest then t.toState else stateAfter past digest := by
  unfold stateAfter preceding
  rw [List.filter_append]
  split_ifs with hartifact
  · rw [List.filter_cons_of_pos (by simpa using hartifact), List.filter_nil, List.getLast?_concat]
    rfl
  · rw [List.filter_cons_of_neg (by simpa using hartifact), List.filter_nil, List.append_nil]

theorem trail_stateAfter {ts : List (PolicyLifecycleTransition P)} (hvalid : ∀ t ∈ ts, Valid t)
    (htold : Each Told ts) (digest : Str) : Trail ts digest (stateAfter ts digest) := by
  induction ts using List.reverseRecOn generalizing digest with
  | nil => trivial
  | append_singleton past t ih =>
    obtain ⟨hpast, ht⟩ := htold.of_concat
    have hvalid' : ∀ t' ∈ past, Valid t' := fun t' h => hvalid t' (List.mem_append_left _ h)
    have hdeclared := (hvalid t (List.mem_append_right _ (List.mem_singleton_self t))).declared
    rw [stateAfter_concat]
    split_ifs with hartifact
    · subst hartifact
      refine Trail.step ?_ hdeclared
      rw [ht]
      exact ih hvalid' hpast t.artifactDigest
    · exact (ih hvalid' hpast digest).append t

/-- What a call makes of its arguments: a valid transition, with the digest and the proof that it was
given. -/
def Makes (call : Call P) (t : PolicyLifecycleTransition P) : Prop :=
  Valid t ∧ requireDigests call.args = .ok (t.artifactDigest, t.proof)

theorem makes_of_succeed {calls : List (Call P)} {ts : List (PolicyLifecycleTransition P)}
    (h : Succeed u calls ts) : List.Forall₂ Makes calls ts :=
  h.imp fun _ _ hcall =>
    ⟨(applyTransition_eq_ok hcall).1, (applyTransition_eq_ok hcall).2.2⟩

theorem valid_of_makes {calls : List (Call P)} {ts : List (PolicyLifecycleTransition P)}
    (h : List.Forall₂ Makes calls ts) : ∀ t ∈ ts, Valid t := by
  intro t ht
  induction h with
  | nil => exact absurd ht List.not_mem_nil
  | cons hcall _ ih =>
    rcases List.mem_cons.mp ht with rfl | ht
    · exact hcall.1
    · exact ih ht

/-- Each successful call takes a declared step, with the proof that it was given, and where each call
is given the state that its artifact was left in, a policy is deployed only after it was approved and
then signed. -/
theorem onPath_of_told (u : Letters P) (calls : List (Call P))
    (ts : List (PolicyLifecycleTransition P)) (h : Succeed u calls ts) :
    List.Forall₂ Makes calls ts ∧ (Each Told ts → Each OnPath ts) := by
  have hmakes := makes_of_succeed h
  have hvalid := valid_of_makes hmakes
  refine ⟨hmakes, fun htold past t rest heq hdeployed => ?_⟩
  subst heq
  have hpast : Each Told past := fun past' t' rest' heq =>
    htold past' t' (rest' ++ t :: rest) (by rw [heq, List.append_assoc, List.cons_append])
  have htrail := trail_stateAfter (fun t' h => hvalid t' (List.mem_append_left _ h)) hpast
    t.artifactDigest
  have hdeclared := (hvalid t (List.mem_append_right _ List.mem_cons_self)).declared
  rw [← show t.fromState = _ from htold past t rest rfl] at htrail
  cases hfrom : t.fromState with
  | signed =>
    rw [hfrom] at htrail
    exact htrail
  | authoring | reviewApproved | deployed =>
    rw [hfrom, hdeployed] at hdeclared
    cases hdeclared

/-! ### A policy that was never signed -/

def shortLaw : Bytes :=
  (encode (str "\x7b\"clauses\": [\x7b\"clause_id\": \"I\", \"escalation\": \"advisory\"\x7d]\x7d")).getD []

def someDigest : Str := str "sha256:" ++ List.replicate 64 49

/-- The proof of the call below; the transition that it names never was. -/
def someProof : Dict reference.Float where
  items := [(.str (str "artifact_digest"), .str someDigest),
    (.str (str "previous_transition_hash"), .str someDigest),
    (.str (str "evidence"), .dict [(.str (str "approver"), .str (str "operator-1"))])]
  wf := by
    refine wf_of_names [str "artifact_digest", str "previous_transition_hash", str "evidence"] rfl
      (by decide) ?_
    simp only [List.forall_mem_cons]
    refine ⟨trivial, trivial, ?_, List.forall_mem_nil _⟩
    exact wf_of_names [str "approver"] rfl (by decide) (List.forall_mem_singleton.mpr trivial)

def move (fromState toState : PolicyState) : Call reference where
  law := shortLaw
  args :=
    { artifactDigest := .str someDigest
      fromState := .str fromState.value
      toState := .str toState.value
      proof := some someProof
      fromState_wf := trivial
      toState_wf := trivial }
  clock := ⟨str "20260101000000", str "2026-01-01T00:00:00Z", 1, 2⟩
  world := ⟨⟨none, none, none⟩, none⟩

theorem exists_move {fromState toState : PolicyState} (hnext : fromState.next = some toState) :
    ∃ t, (applyTransition referenceLetters (move fromState toState).law
        (move fromState toState).args (move fromState toState).clock
        (move fromState toState).world).1 = .ok t ∧
      t.fromState = fromState ∧ t.toState = toState ∧ t.artifactDigest = someDigest := by
  have hok : (applyTransition referenceLetters (move fromState toState).law
      (move fromState toState).args (move fromState toState).clock
      (move fromState toState).world).1.isOk = true := by
    cases fromState with
    | authoring | reviewApproved | signed =>
      obtain rfl := Option.some.inj hnext
      decide +kernel
    | deployed => cases hnext
  have hstates : requireStates (move fromState toState).args = .ok (fromState, toState) := by
    cases fromState with
    | authoring | reviewApproved | signed =>
      obtain rfl := Option.some.inj hnext
      decide +kernel
    | deployed => cases hnext
  obtain ⟨t, ht⟩ := exists_of_isOk hok
  obtain ⟨-, hargs, hdigests⟩ := applyTransition_eq_ok ht
  have hmoved := Prod.mk.inj (Except.ok.inj (hargs.symm.trans hstates))
  have hdigest : (requireDigests (move fromState toState).args).toOption.map Prod.fst =
      some someDigest := by
    change (requireDigests (move .signed .deployed).args).toOption.map Prod.fst = some someDigest
    decide +kernel
  rw [hdigests] at hdigest
  exact ⟨t, ht, hmoved.1, hmoved.2, Option.some.inj hdigest⟩

/-- The three steps, one after the other. -/
theorem onPath_of_told_moves : ∃ t₁ t₂ t₃ : PolicyLifecycleTransition reference,
    t₃.toState = .deployed ∧ Each OnPath [t₁, t₂, t₃] := by
  obtain ⟨t₁, h₁, from₁, to₁, digest₁⟩ := exists_move (rfl : PolicyState.authoring.next = _)
  obtain ⟨t₂, h₂, from₂, to₂, digest₂⟩ := exists_move (rfl : PolicyState.reviewApproved.next = _)
  obtain ⟨t₃, h₃, from₃, to₃, digest₃⟩ := exists_move (rfl : PolicyState.signed.next = _)
  refine ⟨t₁, t₂, t₃, to₃, ?_⟩
  refine (onPath_of_told referenceLetters [move .authoring .reviewApproved,
    move .reviewApproved .signed, move .signed .deployed] [t₁, t₂, t₃]
      (.cons h₁ (.cons h₂ (.cons h₃ .nil)))).2 ?_
  have first : Each Told ([] : List (PolicyLifecycleTransition reference)) :=
    fun past t rest heq =>
      absurd heq.symm (List.append_ne_nil_of_right_ne_nil past (List.cons_ne_nil t rest))
  have hone : Each Told [t₁] := first.concat (by rw [Told, from₁]; rfl)
  have htwo : Each Told [t₁, t₂] := hone.concat (by
    rw [Told, from₂, ← List.nil_append [t₁], stateAfter_concat, digest₂, digest₁, if_pos rfl, to₁])
  refine htwo.concat ?_
  rw [Told, from₃, show [t₁, t₂] = [t₁] ++ [t₂] from rfl, stateAfter_concat, digest₃, digest₂,
    if_pos rfl, to₂]

/-- In general a policy can be deployed that was never approved or signed. -/
theorem not_onPath : ¬ ∀ (calls : List (Call reference))
    (ts : List (PolicyLifecycleTransition reference)), Succeed referenceLetters calls ts →
      Each (fun past t => OnPath past t ∧ Linked past t) ts := by
  intro h
  obtain ⟨t, hsucceed, -, hdeployed, -⟩ := exists_move (rfl : PolicyState.signed.next = _)
  obtain ⟨r, s, hsub, -⟩ := (h [move .signed .deployed] [t] (.cons hsucceed .nil) [] t [] rfl).1
    hdeployed
  exact absurd (List.sublist_nil.mp hsub) (List.cons_ne_nil _ _)

end Adaad.PolicyLifecycle
