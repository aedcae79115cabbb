import Adaad.Chain
import Adaad.Dorkllm.MutationExecution
import Adaad.Py.Reference

/-!
# What the ledger of the engine holds

Each call adds at most one record (`ledger_step`).  The record of an application is justified by the
tokens of its call exactly when the selection token names the mutation, the numbers are numbers and
a mutation of high impact has a reference of its ratification: the gates look at none of this
(`cleared_iff`).  The record of a rollback is justified unless the mutation was interrupted since it
was applied (`tracked_step`).  The chain of the ledger is always intact (`verifyChain_run`).
-/

namespace Adaad.MutationExecution

open Py Run

variable {P : Platform} {N : Type} {num : Numbers P N} {e : Engine N}

/-! ### Justified records -/

def latest (ledger : List (ExecutionRecord N)) (mutationId : Str) : Option (ExecutionRecord N) :=
  ledger.reverse.find? fun r => r.mutationId = mutationId

theorem latest_concat (ledger : List (ExecutionRecord N)) (r : ExecutionRecord N)
    (mutationId : Str) : latest (ledger ++ [r]) mutationId =
      if r.mutationId = mutationId then some r else latest ledger mutationId := by
  unfold latest
  rw [List.reverse_concat, List.find?_cons]
  split_ifs with h
  · rw [decide_eq_true h]
  · rw [decide_eq_false h]

variable (num) in
/-- The tokens clear the payload as the mutation. -/
structure Cleared (mutationId : Str) (payload : MutationPayload N) (mrpToken : MRPClearanceToken N)
    (mseToken : MSESelectionToken) : Prop where
  clearance : mrpToken.mutationId = mutationId
  selection : mseToken.mutationId = mutationId
  risk : num.lt mrpToken.compositeRisk num.riskCeiling = true
  scope : payload.targetScope ∈ maxScopeTargets
  blast : num.le payload.blastRadius num.maxBlastRadius = true
  ratified : num.le num.highImpactThreshold payload.impactScore = true →
    payload.human0Ratified = true ∧ payload.ratificationRef ≠ none

variable (num) in
/-- A record that a call adds is what it should be. -/
structure Justified (e : Engine N) (call : Call N) (r : ExecutionRecord N) : Prop where
  applied : r.status = .applied → ∃ payload mrpToken mseToken stamp,
    call = .apply payload mrpToken mseToken stamp ∧
      Cleared num r.mutationId payload mrpToken mseToken
  rolledBack : r.status = .rolledBack →
    ∃ s, latest e.ledger r.mutationId = some s ∧ s.status = .applied

/-- An error that a gate raises, rather than an execution that was under way. -/
def MEXError.isGate : MEXError → Bool
  | .atomicViolation _ => false
  | _ => true

variable (num) in
/-- In the run every record is justified, and a call that raises on a gate changes nothing. -/
structure Gated (calls : List (Call N)) : Prop where
  justified : Logged (step num) Engine.ledger (Justified num) (newEngine N) calls
  unchanged : Meets (step num) (fun e call => ∀ error, (perform num e call).2 = .error error →
    error.isGate = true → step num e call = e) (newEngine N) calls

/-! ### The gates -/

theorem classifyImpact_high {impactScore : N}
    (h : num.le num.highImpactThreshold impactScore = true) :
    classifyImpact num impactScore = .high ∨ classifyImpact num impactScore = .critical := by
  unfold classifyImpact
  split_ifs
  · exact .inr rfl
  · exact .inl rfl

theorem of_checkGates {payload : MutationPayload N} {mrpToken : MRPClearanceToken N}
    (h : checkGates num payload mrpToken = .ok ()) :
    mrpToken.mutationId = payload.mutationId ∧
      num.le num.riskCeiling mrpToken.compositeRisk = false ∧
      payload.targetScope ∈ maxScopeTargets ∧
      num.lt num.maxBlastRadius payload.blastRadius = false ∧
      (num.le num.highImpactThreshold payload.impactScore = true →
        payload.human0Ratified = true) := by
  unfold checkGates at h
  dsimp only at h
  split_ifs at h with hid hrisk hscope hblast hratified
  refine ⟨not_not.mp hid, Bool.eq_false_iff.mpr hrisk, hscope,
    Bool.eq_false_iff.mpr hblast, fun himpact => ?_⟩
  by_contra hnot
  exact hratified ⟨classifyImpact_high himpact, Bool.eq_false_iff.mpr hnot⟩

theorem cleared_iff {payload : MutationPayload N} {mrpToken : MRPClearanceToken N}
    (mseToken : MSESelectionToken) (h : checkGates num payload mrpToken = .ok ()) :
    Cleared num payload.mutationId payload mrpToken mseToken ↔
      mseToken.mutationId = payload.mutationId ∧ num.isNan mrpToken.compositeRisk = false ∧
        num.isNan payload.blastRadius = false ∧
        (num.le num.highImpactThreshold payload.impactScore = true →
          payload.ratificationRef ≠ none) := by
  obtain ⟨hid, hrisk, hscope, hblast, hratified⟩ := of_checkGates h
  constructor
  · intro hcleared
    refine ⟨hcleared.selection, ((num.lt_iff _ _).mp hcleared.risk).1, ?_,
      fun himpact => (hcleared.ratified himpact).2⟩
    by_contra hnan
    have hle := num.le_eq_false_of_nan payload.blastRadius num.maxBlastRadius
      (.inl (Bool.eq_true_of_not_eq_false hnan))
    rw [hcleared.blast] at hle
    cases hle
  · rintro ⟨hselection, hrisknan, hblastnan, href⟩
    refine ⟨hid, hselection, ?_, hscope, ?_, fun himpact => ⟨hratified himpact, href himpact⟩⟩
    · rw [num.lt_iff]
      exact ⟨hrisknan, num.isNan_riskCeiling, hrisk⟩
    · by_contra hle
      have hlt := (num.lt_iff num.maxBlastRadius payload.blastRadius).mpr
        ⟨num.isNan_maxBlastRadius, hblastnan, Bool.eq_false_iff.mpr hle⟩
      rw [hblast] at hlt
      cases hlt

/-! ### One call -/

variable (num) in
def added (e : Engine N) : Call N → Option (ExecutionRecord N)
  | .apply payload mrpToken mseToken stamp =>
    if checkGates num payload mrpToken = .ok () ∧ e.isSealed = false then
      match payload.patchDescriptor with
      | .other => none
      | .iterable items =>
        some (buildRecord num e payload mrpToken mseToken .rolledBack
          (rollbackOf payload stamp items.eraseDups) interruptedLog stamp)
      | .dict patchKeys =>
        some (buildRecord num e payload mrpToken mseToken .applied
          (rollbackOf payload stamp patchKeys) appliedLog stamp)
    else none
  | .rollback mutationId stamp =>
    if e.isSealed = false then
      (e.applied.lookup mutationId).map fun orig => rollbackRecord num e orig mutationId stamp
    else none
  | .sealLedger => none

theorem append_of_sealed (h : e.isSealed = true) (r : ExecutionRecord N) :
    e.append r = .error (.persistViolation
      (str "MEX-PERSIST-0: ledger is sealed; no further writes permitted.")) := by
  unfold Engine.append
  rw [if_pos h]

theorem append_of_not_sealed (h : e.isSealed = false) (r : ExecutionRecord N) :
    e.append r = .ok { e with ledger := e.ledger ++ [r] } := by
  unfold Engine.append
  rw [if_neg (Bool.eq_false_iff.mp h)]

theorem step_apply (payload : MutationPayload N) (mrpToken : MRPClearanceToken N)
    (mseToken : MSESelectionToken) (stamp : Stamp N) :
    step num e (.apply payload mrpToken mseToken stamp) =
      (apply num e payload mrpToken mseToken stamp).1 := rfl

theorem step_rollback (mutationId : Str) (stamp : Stamp N) :
    step num e (.rollback mutationId stamp) = (rollback num e mutationId stamp).1 := rfl

theorem apply_cases (num : Numbers P N) (e : Engine N) (payload : MutationPayload N)
    (mrpToken : MRPClearanceToken N) (mseToken : MSESelectionToken) (stamp : Stamp N) :
    (added num e (.apply payload mrpToken mseToken stamp) = none ∧
      ∃ error, apply num e payload mrpToken mseToken stamp = (e, .error error)) ∨
    (∃ items, payload.patchDescriptor = .iterable items ∧
      checkGates num payload mrpToken = .ok () ∧ e.isSealed = false ∧
      ∃ r message, added num e (.apply payload mrpToken mseToken stamp) = some r ∧
        r.mutationId = payload.mutationId ∧ r.status = .rolledBack ∧
        r.transitionLog = interruptedLog ∧
        apply num e payload mrpToken mseToken stamp =
          ({ e with ledger := e.ledger ++ [r] }, .error (.atomicViolation message))) ∨
    (∃ patchKeys, payload.patchDescriptor = .dict patchKeys ∧
      checkGates num payload mrpToken = .ok () ∧ e.isSealed = false ∧
      ∃ r, added num e (.apply payload mrpToken mseToken stamp) = some r ∧
        r.mutationId = payload.mutationId ∧ r.status = .applied ∧ r.transitionLog = appliedLog ∧
        apply num e payload mrpToken mseToken stamp =
          ({ e with
              ledger := e.ledger ++ [r]
              applied := Assoc.set e.applied payload.mutationId r }, .ok r)) := by
  unfold apply added
  dsimp only
  rcases hgates : checkGates num payload mrpToken with error | ⟨⟩
  · exact .inl ⟨if_neg fun h => (by cases h.1), error, rfl⟩
  · by_cases hseal : e.isSealed = false
    · rw [if_pos ⟨rfl, hseal⟩]
      cases payload.patchDescriptor with
      | other => exact .inl ⟨rfl, _, rfl⟩
      | iterable items =>
        dsimp only
        rw [append_of_not_sealed hseal]
        exact .inr (.inl ⟨items, rfl, rfl, hseal, _, _, rfl, rfl, rfl, rfl, rfl⟩)
      | dict patchKeys =>
        dsimp only
        rw [append_of_not_sealed hseal]
        exact .inr (.inr ⟨patchKeys, rfl, rfl, hseal, _, rfl, rfl, rfl, rfl, rfl⟩)
    · rw [if_neg fun h => hseal h.2]
      have hsealed := Bool.eq_true_of_not_eq_false hseal
      refine .inl ⟨rfl, ?_⟩
      cases payload.patchDescriptor with
      | other => exact ⟨_, rfl⟩
      | iterable items =>
        dsimp only
        rw [append_of_sealed hsealed]
        exact ⟨_, rfl⟩
      | dict patchKeys =>
        dsimp only
        rw [append_of_sealed hsealed]
        exact ⟨_, rfl⟩

theorem rollback_cases (num : Numbers P N) (e : Engine N) (mutationId : Str) (stamp : Stamp N) :
    (added num e (.rollback mutationId stamp) = none ∧
      ∃ error, rollback num e mutationId stamp = (e, .error error)) ∨
    (e.isSealed = false ∧ ∃ orig, e.applied.lookup mutationId = some orig ∧
      ∃ r, added num e (.rollback mutationId stamp) = some r ∧ r.mutationId = mutationId ∧
        r.status = .rolledBack ∧
        rollback num e mutationId stamp =
          ({ e with
              ledger := e.ledger ++ [r]
              applied := Assoc.erase e.applied mutationId }, .ok r)) := by
  unfold rollback added
  dsimp only
  by_cases hseal : e.isSealed = false
  · rw [if_pos hseal]
    cases e.applied.lookup mutationId with
    | none => exact .inl ⟨rfl, _, rfl⟩
    | some orig =>
      refine .inr ⟨hseal, orig, rfl, _, rfl, rfl, rfl, ?_⟩
      dsimp only
      rw [append_of_not_sealed hseal]
  · rw [if_neg hseal]
    refine .inl ⟨rfl, ?_⟩
    cases e.applied.lookup mutationId with
    | none => exact ⟨_, rfl⟩
    | some orig =>
      dsimp only
      rw [append_of_sealed (Bool.eq_true_of_not_eq_false hseal)]
      exact ⟨_, rfl⟩

theorem ledger_step (call : Call N) :
    (step num e call).ledger = e.ledger ++ (added num e call).toList := by
  cases call with
  | apply payload mrpToken mseToken stamp =>
    rw [step_apply]
    rcases apply_cases num e payload mrpToken mseToken stamp with
      ⟨hnone, error, heq⟩ | ⟨items, -, -, -, r, message, hr, -, -, -, heq⟩ |
        ⟨patchKeys, -, -, -, r, hr, -, -, -, heq⟩
    · rw [heq, hnone, Option.toList_none, List.append_nil]
    · rw [heq, hr, Option.toList_some]
    · rw [heq, hr, Option.toList_some]
  | rollback mutationId stamp =>
    rw [step_rollback]
    rcases rollback_cases num e mutationId stamp with
      ⟨hnone, error, heq⟩ | ⟨-, orig, -, r, hr, -, -, heq⟩
    · rw [heq, hnone, Option.toList_none, List.append_nil]
    · rw [heq, hr, Option.toList_some]
  | sealLedger => exact (List.append_nil _).symm

theorem step_of_isGate {call : Call N} {error : MEXError}
    (h : (perform num e call).2 = .error error) (hgate : error.isGate = true) :
    step num e call = e := by
  cases call with
  | apply payload mrpToken mseToken stamp =>
    rw [step_apply]
    unfold perform at h
    dsimp only [Prod.map] at h
    rcases apply_cases num e payload mrpToken mseToken stamp with
      ⟨hnone, error, heq⟩ | ⟨items, -, -, -, r, message, hr, -, -, -, heq⟩ |
        ⟨patchKeys, -, -, -, r, hr, -, -, -, heq⟩
    · rw [heq]
    · rw [heq] at h
      cases h
      cases hgate
    · rw [heq] at h
      cases h
  | rollback mutationId stamp =>
    rw [step_rollback]
    unfold perform at h
    dsimp only [Prod.map] at h
    rcases rollback_cases num e mutationId stamp with
      ⟨hnone, error, heq⟩ | ⟨-, orig, -, r, hr, -, -, heq⟩
    · rw [heq]
    · rw [heq] at h
      cases h
  | sealLedger => cases h

/-! ### The chain -/

variable (num) in
def chainFormat : Chain.Format Str (ExecutionRecord N) where
  prev := ExecutionRecord.prevDigest
  hash := ExecutionRecord.hmacDigest
  digest h r := some (computeHmac num { r with prevDigest := h })

theorem prevDigest_eq (num : Numbers P N) (e : Engine N) :
    e.prevDigest = (chainFormat num).tail (str "GENESIS") e.ledger := by
  unfold Engine.prevDigest
  rcases List.eq_nil_or_concat e.ledger with hnil | ⟨rs, r, hconcat⟩
  · rw [hnil]
    rfl
  · rw [hconcat, List.concat_eq_append, List.getLast?_concat, Chain.Format.tail_concat]
    rfl

theorem links_added {call : Call N} {r : ExecutionRecord N} (h : added num e call = some r) :
    (chainFormat num).Links e.prevDigest r := by
  cases call with
  | apply payload mrpToken mseToken stamp =>
    unfold added at h
    dsimp only at h
    split_ifs at h
    split at h
    · cases h
    · obtain rfl := Option.some.inj h
      exact ⟨rfl, rfl⟩
    · obtain rfl := Option.some.inj h
      exact ⟨rfl, rfl⟩
  | rollback mutationId stamp =>
    unfold added at h
    dsimp only at h
    split_ifs at h
    obtain ⟨orig, -, rfl⟩ := Option.map_eq_some_iff.mp h
    exact ⟨rfl, rfl⟩
  | sealLedger => cases h

theorem valid_step (call : Call N) (h : (chainFormat num).Valid (str "GENESIS") e.ledger) :
    (chainFormat num).Valid (str "GENESIS") (step num e call).ledger := by
  rw [ledger_step]
  cases hadded : added num e call with
  | none =>
    rw [Option.toList_none, List.append_nil]
    exact h
  | some r =>
    rw [Option.toList_some, Chain.Format.valid_concat, ← prevDigest_eq]
    exact ⟨h, links_added hadded⟩

/-! ### What is applied -/

/-- The latest record of a mutation that counts as applied says that it is, or that another
application of it was interrupted. -/
def Tracked (e : Engine N) : Prop :=
  ∀ mutationId r, e.applied.lookup mutationId = some r →
    ∃ s, latest e.ledger mutationId = some s ∧
      (s.status = .applied ∧ s.transitionLog = appliedLog ∨
        s.status = .rolledBack ∧ s.transitionLog = interruptedLog)

theorem tracked_step (num : Numbers P N) (call : Call N) (h : Tracked e) :
    Tracked (step num e call) := by
  cases call with
  | apply payload mrpToken mseToken stamp =>
    rw [step_apply]
    rcases apply_cases num e payload mrpToken mseToken stamp with
      ⟨hnone, error, heq⟩ | ⟨items, -, -, -, r, message, hr, hid, hstatus, hlog, heq⟩ |
        ⟨patchKeys, -, -, -, r, hr, hid, hstatus, hlog, heq⟩
    · rw [heq]
      exact h
    · rw [heq]
      intro mutationId s hs
      rw [latest_concat]
      split_ifs
      · exact ⟨r, rfl, .inr ⟨hstatus, hlog⟩⟩
      · exact h mutationId s hs
    · rw [heq]
      intro mutationId s hs
      dsimp only at hs
      rw [Assoc.lookup_set] at hs
      rw [latest_concat, hid]
      by_cases hsame : mutationId = payload.mutationId
      · rw [if_pos hsame.symm]
        exact ⟨r, rfl, .inl ⟨hstatus, hlog⟩⟩
      · rw [if_neg hsame] at hs
        rw [if_neg (Ne.symm hsame)]
        exact h mutationId s hs
  | rollback mutationId stamp =>
    rw [step_rollback]
    rcases rollback_cases num e mutationId stamp with
      ⟨hnone, error, heq⟩ | ⟨-, orig, -, r, hr, hid, hstatus, heq⟩
    · rw [heq]
      exact h
    · rw [heq]
      intro other s hs
      dsimp only at hs
      rw [Assoc.lookup_erase] at hs
      by_cases hsame : other = mutationId
      · rw [if_pos hsame] at hs
        cases hs
      · rw [if_neg hsame] at hs
        rw [latest_concat, hid, if_neg (Ne.symm hsame)]
        exact h other s hs
  | sealLedger => exact h

/-! ### Runs -/

/-- The latest record of the mutation says that it is applied. -/
def IsApplied (ledger : List (ExecutionRecord N)) (mutationId : Str) : Prop :=
  ∃ s, latest ledger mutationId = some s ∧ s.status = .applied

/-- The latest record of the mutation is that of an interruption. -/
def Interrupted (ledger : List (ExecutionRecord N)) (mutationId : Str) : Prop :=
  ∃ s, latest ledger mutationId = some s ∧ s.transitionLog = interruptedLog

variable (num) in
/-- A payload that passes the gates has what they do not look at: the mutation in its selection
token, numbers that are numbers, the reference of a ratification that it needs, and a `dict` for
its patch unless the mutation is applied.  A mutation that is rolled back was not interrupted. -/
def Admits (e : Engine N) : Call N → Prop
  | .apply payload mrpToken mseToken _ =>
    checkGates num payload mrpToken = .ok () → e.isSealed = false →
      match payload.patchDescriptor with
      | .dict _ => mseToken.mutationId = payload.mutationId ∧
          num.isNan mrpToken.compositeRisk = false ∧ num.isNan payload.blastRadius = false ∧
          (num.le num.highImpactThreshold payload.impactScore = true →
            payload.ratificationRef ≠ none)
      | .iterable _ => IsApplied e.ledger payload.mutationId
      | .other => True
  | .rollback mutationId _ => e.isSealed = false → (e.applied.lookup mutationId).isSome = true →
      ¬Interrupted e.ledger mutationId
  | .sealLedger => True

theorem forall_added_iff {call : Call N} {Q : ExecutionRecord N → Prop} :
    (∀ r, (step num e call).ledger = e.ledger ++ [r] → Q r) ↔
      ∀ r, added num e call = some r → Q r := by
  refine forall_congr' fun r => imp_congr_left ?_
  rw [ledger_step, List.append_cancel_left_eq]
  cases added num e call with
  | none => exact iff_of_false (fun h => by cases h) fun h => by cases h
  | some s =>
    rw [Option.toList_some]
    exact ⟨fun h => congrArg some (List.singleton_inj.mp h), fun h => by rw [Option.some.inj h]⟩

theorem justified_iff_admits (call : Call N) (h : Tracked e) :
    (∀ r, (step num e call).ledger = e.ledger ++ [r] → Justified num e call r) ↔
      Admits num e call := by
  rw [forall_added_iff]
  cases call with
  | apply payload mrpToken mseToken stamp =>
    unfold Admits
    dsimp only
    rcases apply_cases num e payload mrpToken mseToken stamp with
      ⟨hnone, -⟩ | ⟨items, hdescriptor, hgates, hseal, r, -, hr, hid, hstatus, -, -⟩ |
        ⟨patchKeys, hdescriptor, hgates, hseal, r, hr, hid, hstatus, -, -⟩
    · rw [hnone]
      refine iff_of_true (fun r hr => by cases hr) fun hgates hseal => ?_
      unfold added at hnone
      dsimp only at hnone
      rw [if_pos ⟨hgates, hseal⟩] at hnone
      split at hnone
      · next hdescriptor =>
        rw [hdescriptor]
        trivial
      · cases hnone
      · cases hnone
    · rw [hr, hdescriptor]
      constructor
      · intro hall _ _
        have hjustified := (hall r rfl).rolledBack hstatus
        rw [hid] at hjustified
        exact hjustified
      · intro hadmits s hs
        obtain rfl := Option.some.inj hs
        refine ⟨fun happlied => ?_, fun _ => ?_⟩
        · rw [hstatus] at happlied
          cases happlied
        · rw [hid]
          exact hadmits hgates hseal
    · rw [hr, hdescriptor]
      dsimp only
      rw [← cleared_iff mseToken hgates]
      constructor
      · intro hall _ _
        obtain ⟨_, _, _, _, hcall, hcleared⟩ := (hall r rfl).applied hstatus
        obtain ⟨rfl, rfl, rfl, rfl⟩ := Call.apply.inj hcall
        rw [hid] at hcleared
        exact hcleared
      · intro hadmits s hs
        obtain rfl := Option.some.inj hs
        refine ⟨fun _ => ⟨payload, mrpToken, mseToken, stamp, rfl, ?_⟩, fun hrolled => ?_⟩
        · rw [hid]
          exact hadmits hgates hseal
        · rw [hstatus] at hrolled
          cases hrolled
  | rollback mutationId stamp =>
    unfold Admits
    dsimp only
    rcases rollback_cases num e mutationId stamp with
      ⟨hnone, -⟩ | ⟨hseal, orig, horig, r, hr, hid, hstatus, -⟩
    · rw [hnone]
      refine iff_of_true (fun r hr => by cases hr) fun hseal hsome => ?_
      unfold added at hnone
      dsimp only at hnone
      rw [if_pos hseal, Option.map_eq_none_iff] at hnone
      rw [hnone] at hsome
      cases hsome
    · obtain ⟨s, hs, hlatest⟩ := h mutationId orig horig
      rw [hr, horig]
      constructor
      · rintro hall - - ⟨s', hs', hlog'⟩
        obtain ⟨t, ht, happlied⟩ := (hall r rfl).rolledBack hstatus
        rw [hid, hs] at ht
        obtain rfl := Option.some.inj (hs.symm.trans hs')
        obtain rfl := Option.some.inj ht
        rcases hlatest with ⟨-, hlog⟩ | ⟨hrolled, -⟩
        · rw [hlog] at hlog'
          exact absurd hlog' (by decide)
        · rw [happlied] at hrolled
          cases hrolled
      · intro hadmits t ht
        obtain rfl := Option.some.inj ht
        refine ⟨fun happlied => ?_, fun _ => ?_⟩
        · rw [hstatus] at happlied
          cases happlied
        · rw [hid]
          rcases hlatest with ⟨happlied, -⟩ | ⟨-, hlog⟩
          · exact ⟨s, hs, happlied⟩
          · exact absurd ⟨s, hs, hlog⟩ (hadmits hseal rfl)
  | sealLedger => exact iff_of_true (fun r hr => by cases hr) trivial

/-- In every run from a new engine every record is justified, and a call that raises on a gate
changes nothing, exactly when every call is admitted. -/
theorem gated_iff (num : Numbers P N) (calls : List (Call N)) :
    Gated num calls ↔ Meets (step num) (Admits num) (newEngine N) calls := by
  have hlog : ∀ (e : Engine N) (call : Call N), (step num e call).ledger = e.ledger ∨
      ∃ r, (step num e call).ledger = e.ledger ++ [r] := by
    intro e call
    rw [ledger_step]
    cases added num e call with
    | none => exact .inl (List.append_nil _)
    | some r => exact .inr ⟨r, rfl⟩
  have htracked : Tracked (newEngine N) := fun _ _ h => by cases h
  have hmeets : Meets (step num) (fun e call => ∀ r,
      (step num e call).ledger = e.ledger ++ [r] → Justified num e call r) (newEngine N) calls ↔
      Meets (step num) (Admits num) (newEngine N) calls :=
    meets_congr_of_invariant (fun e call => tracked_step num call)
      (fun e call => justified_iff_admits call) htracked
  constructor
  · intro h
    exact hmeets.mp ((logged_iff_meets hlog).mp h.justified)
  · intro h
    exact ⟨(logged_iff_meets hlog).mpr (hmeets.mpr h),
      meets_of_forall_mem fun call _ e error hraise hgate => step_of_isGate hraise hgate⟩

/-! ### A selection of another mutation -/

def hundredthsText (n : Int) : FloatText :=
  let d := n.natAbs % 100
  let frac := if d % 10 = 0 then [48 + d / 10] else [48 + d / 10, 48 + d % 10]
  .lit ⟨decide (n < 0), natText (n.natAbs / 100), frac, none⟩

/-- Whole hundredths, and `NaN`, as the numbers that inputs are run on. -/
def hundredths : Numbers reference (Option Int) where
  lt
    | some x, some y => x < y
    | _, _ => false
  le
    | some x, some y => x ≤ y
    | _, _ => false
  isNan x := x.isNone
  json x := .float (LiteralFloat.ofText (x.elim .nan hundredthsText))
  fixed3
    | some x => (if x < 0 then str "-" else []) ++ natText (x.natAbs / 100) ++ str "." ++
        [48 + x.natAbs % 100 / 10, 48 + x.natAbs % 10, 48]
    | none => str "nan"
  scopeTargetsText := str "\x7b'dorkllm', 'app', 'runtime', 'tests', 'governance'\x7d"
  riskCeiling := some 85
  maxBlastRadius := some 70
  highImpactThreshold := some 65
  criticalImpactThreshold := some 85
  mediumImpactThreshold := some 40
  lowImpactThreshold := some 20
  le_eq_false_of_nan x y h := by
    cases x <;> cases y <;> simp at h ⊢
  lt_iff x y := by
    cases x <;> cases y <;> simp
  isNan_riskCeiling := rfl
  isNan_maxBlastRadius := rfl

def payload : MutationPayload (Option Int) where
  mutationId := str "1"
  targetModule := str "dorkllm.foo"
  targetScope := str "dorkllm"
  patchDescriptor := .dict [str "change_a"]
  blastRadius := some 30
  impactScore := some 25
  human0Ratified := false
  ratificationRef := none

/-- The mutation "1" is applied with the selection token of the mutation "2". -/
def misselected : Call (Option Int) :=
  .apply payload ⟨str "1", some 30, str "t"⟩ ⟨str "2", str "u"⟩ ⟨str "r", some 0, str "e", some 0⟩

theorem not_admits_misselected : ¬Admits hundredths (newEngine _) misselected := by
  intro h
  have hselection : str "2" = str "1" := (h rfl rfl).1
  exact absurd hselection (by decide)

/-- In general a record need not be justified. -/
theorem not_gated : ¬ ∀ calls, Gated hundredths calls := by
  intro h
  have htracked : Tracked (newEngine (Option Int)) := fun _ _ hr => by cases hr
  refine not_admits_misselected ((justified_iff_admits misselected htracked).mp fun r hr => ?_)
  have hget : (run (step hundredths) (newEngine _) [misselected]).ledger[0]? = some r := by
    rw [run_cons, run_nil, hr]
    rfl
  obtain ⟨before, call, after, heq, hlen, -, hjustified⟩ :=
    (h [misselected]).justified 0 r (Nat.zero_le _) hget
  cases before with
  | nil =>
    obtain ⟨rfl, -⟩ := List.cons.inj heq
    exact hjustified
  | cons b before =>
    have hnil := (List.cons.inj heq).2
    cases before <;> cases hnil

end Adaad.MutationExecution
