import Adaad.Governance.PhaseTransitionGate
import Adaad.Py.Reference
import Adaad.Run

/-!
# The phase and its audit log

In every run the phase is one of the five, and the one that the audit log is replayed to.  It rises only
by an attempt whose criteria hold, which somebody has made exactly where no attempt passes under a blank
name (`lawful_iff`).
-/

namespace Adaad.Governance

open Py Innovations

variable {P : Platform}

/-! ### The state file -/

def PhaseState.Writable (s : PhaseState P) : Prop :=
  ∀ v ∈ s.transitionHistory, Sortable P v

def PhaseState.row (s : PhaseState P) : Members P.Float :=
  [(.str (str "current_phase"), .int s.currentPhase),
   (.str (str "consecutive_clean_epochs"), .int s.consecutiveCleanEpochs),
   (.str (str "transition_history"), .list s.transitionHistory)]

theorem PhaseState.named_row (s : PhaseState P) : NamedItems s.row :=
  .of_names [str "current_phase", str "consecutive_clean_epochs", str "transition_history"] rfl
    (by decide) (by decide)

theorem PhaseState.Writable.sortable_row {s : PhaseState P} (h : s.Writable) :
    Sortable P (.dict s.row) := by
  refine (sortable_dict_iff fun m hm => s.named_row.isString hm).mpr ?_
  simp only [PhaseState.row, List.forall_mem_cons]
  exact ⟨Value.Flat.sortable trivial, Value.Flat.sortable trivial, sortable_list_iff.mpr h,
    fun m hm => absurd hm List.not_mem_nil⟩

theorem exists_saveState {s : PhaseState P} (h : s.Writable) :
    ∃ file history, saveState s = .ok file ∧
      loadState (some file) = .ok ⟨s.currentPhase, history, s.consecutiveCleanEpochs⟩ ∧
        ∀ v ∈ history, Sortable P v := by
  obtain ⟨t, ht⟩ := exists_dumpsSortedAscii (L := .spaced) h.sortable_row
  obtain ⟨file, hwrite, hread⟩ := exists_writeText_row ht
  obtain ⟨e, hloads, hget⟩ := loads_of_dumpsSortedAscii P s.named_row ht
  obtain ⟨history, hhistory, hplain⟩ := reread_list (sortable_list_iff.mpr h)
  have hphase : get e (str "current_phase") = some (.int s.currentPhase) := hget _
  have hclean : get e (str "consecutive_clean_epochs") = some (.int s.consecutiveCleanEpochs) := hget _
  have hentries : get e (str "transition_history") = some (.list history) := (hget _).trans hhistory
  refine ⟨file, history, ?_, ?_, fun v hv => exists_sortKeys P (hplain v hv)⟩
  · unfold saveState
    rw [show dumpsSortedAscii P .spaced (.dict [(.str (str "current_phase"), .int s.currentPhase),
      (.str (str "consecutive_clean_epochs"), .int s.consecutiveCleanEpochs),
      (.str (str "transition_history"), .list s.transitionHistory)]) = some t from ht]
    exact hwrite
  · unfold loadState
    dsimp only
    rw [hread]
    dsimp only [Except.mapError, bind, Except.bind]
    rw [hloads]
    dsimp only
    rw [hphase, hclean, hentries]
    rfl

/-! ### The audit log -/

/-- What a line of the audit log says about the phase: a passing attempt sets it, and so does a
demotion. -/
def replayEvent (phase : Int) (line : P.Obj) : Int :=
  match line with
  | .dict e =>
    match get e (str "event_type"), get e (str "payload") with
    | some (.str eventType), some (.dict payload) =>
      match get payload (str "to_phase") with
      | some (.int toPhase) =>
        if eventType = str "phase_demotion" then toPhase
        else
          match get payload (str "gate_passed") with
          | some (.bool true) => if eventType = str "phase_transition_attempt" then toPhase else phase
          | _ => phase
      | _ => phase
    | _, _ => phase
  | _ => phase

variable (P) in
/-- The phase that the audit log is replayed to. -/
def replayPhase (auditFile : Bytes) : Option Int :=
  match looseRows P auditFile with
  | .ok rows => some (rows.foldl replayEvent 0)
  | .error _ => none

/-- The log has whole lines, which are replayed to this phase. -/
def Replays (auditFile : Bytes) (phase : Int) : Prop :=
  ∃ text, readText auditFile = .ok text ∧ CompleteLines text ∧
    ((filledLines text).filterMap (loads P)).foldl replayEvent 0 = phase

theorem Replays.replayPhase_eq {auditFile : Bytes} {phase : Int}
    (h : Replays (P := P) auditFile phase) : replayPhase P auditFile = some phase := by
  obtain ⟨text, hread, -, hfold⟩ := h
  unfold replayPhase looseRows
  rw [hread]
  exact congrArg some hfold

theorem replays_nil : Replays (P := P) [] 0 :=
  ⟨[], rfl, .inl rfl, rfl⟩

def auditRow (eventType : Str) (payload : Members P.Float) (now : Str) : Members P.Float :=
  [(.str (str "event_type"), .str eventType),
   (.str (str "timestamp"), .str now),
   (.str (str "payload"), .dict payload)]

theorem named_auditRow (eventType : Str) (payload : Members P.Float) (now : Str) :
    NamedItems (auditRow eventType payload now) :=
  .of_names [str "event_type", str "timestamp", str "payload"] rfl (by decide) (by decide)

theorem exists_writeAudit_iff {auditFile : Bytes} {eventType now : Str} {payload : Members P.Float} :
    (∃ file, writeAudit auditFile eventType payload now = .ok file) ↔ Sortable P (.dict payload) := by
  refine exists_appendSorted_iff.trans ?_
  refine (@sortable_dict_iff P (auditRow eventType payload now)
    fun m hm => (named_auditRow eventType payload now).isString hm).trans ?_
  simp only [auditRow, List.forall_mem_cons]
  exact ⟨fun h => h.2.2.1, fun h => ⟨Value.Flat.sortable trivial, Value.Flat.sortable trivial, h,
    fun m hm => absurd hm List.not_mem_nil⟩⟩

theorem Replays.writeAudit {auditFile file : Bytes} {phase : Int}
    (h : Replays (P := P) auditFile phase) {eventType now : Str} (hascii : ∀ c ∈ eventType, c < 128)
    {payload : Members P.Float} (hpayload : NamedItems payload)
    (hwrite : writeAudit auditFile eventType payload now = .ok file) :
    ∃ e p : Members P.Float, Replays (P := P) file (replayEvent phase (.dict e)) ∧
      get e (str "event_type") = some (.str eventType) ∧ get e (str "payload") = some (.dict p) ∧
        ∀ k, get p k = (get payload k).bind (reread P) := by
  obtain ⟨text, hread, hcomplete, hfold⟩ := h
  obtain ⟨p, hreread, hp⟩ := reread_dict hpayload (exists_writeAudit_iff.mp ⟨file, hwrite⟩)
  obtain ⟨text', e, hread', hcomplete', hlines, hget⟩ := exists_readText_append hread hcomplete
    (named_auditRow eventType payload now) hwrite
  refine ⟨e, p, ⟨text', hread', hcomplete', ?_⟩, ?_, ?_, hp⟩
  · rw [hlines, List.foldl_append, hfold]
    rfl
  · exact (hget _).trans (reread_str (encodable_of_ascii hascii))
  · exact (hget _).trans hreread

/-! ### Criteria -/

/-- The five criteria hold, where the gate has counted so many clean epochs. -/
structure CriteriaHold (R : Rounding P) (cleanEpochs : Int) (criteria : GateCriteria P)
    (evidence : TransitionEvidence P) : Prop where
  approved : criteria.minApprovedMutations ≤ evidence.approvedMutationCount
  passRate : (R.round4 evidence.mutationPassRate).ge (.inr criteria.minMutationPassRate) = true
  lineage : (R.round4 evidence.lineageCompleteness).ge (.inr criteria.minLineageCompleteness) = true
  intact : evidence.auditChainIntact = criteria.auditChainIntact
  clean : criteria.minConsecutiveCleanEpochs ≤ max evidence.consecutiveCleanEpochs cleanEpochs

theorem all_evaluateCriteria_iff {R : Rounding P} {cleanEpochs : Int} {criteria : GateCriteria P}
    {evidence : TransitionEvidence P} :
    (evaluateCriteria R cleanEpochs criteria evidence).all CriterionResult.passed = true ↔
      CriteriaHold R cleanEpochs criteria evidence := by
  unfold evaluateCriteria
  simp only [List.all_cons, List.all_nil, Bool.and_true, Bool.and_eq_true, decide_eq_true_eq]
  constructor
  · rintro ⟨happroved, hrate, hlineage, hintact, hclean⟩
    exact ⟨happroved, hrate, hlineage, hintact, hclean⟩
  · rintro ⟨happroved, hrate, hlineage, hintact, hclean⟩
    exact ⟨happroved, hrate, hlineage, hintact, hclean⟩

theorem bounds_of_phaseGateCriteria {phase : Int} {criteria : GateCriteria P}
    (h : phaseGateCriteria P phase = some criteria) : 1 ≤ phase ∧ phase ≤ 4 := by
  unfold phaseGateCriteria at h
  split at h
  · omega
  · omega
  · omega
  · omega
  · cases h

theorem validateTargetPhase_eq_ok {currentPhase targetPhase : Int} {criteria : GateCriteria P} :
    validateTargetPhase currentPhase targetPhase = .ok criteria ↔
      targetPhase = currentPhase + 1 ∧ phaseGateCriteria P targetPhase = some criteria := by
  unfold validateTargetPhase
  by_cases hrange : targetPhase < 1 ∨ targetPhase > maxPhase
  · rw [if_pos hrange]
    refine iff_of_false (fun h => by cases h) ?_
    rintro ⟨-, hcriteria⟩
    obtain ⟨hlow, hhigh⟩ := bounds_of_phaseGateCriteria hcriteria
    have hmax : maxPhase = 4 := rfl
    omega
  · rw [if_neg hrange]
    by_cases hnext : targetPhase = currentPhase + 1
    · rw [if_neg (not_not_intro hnext), and_iff_right hnext]
      cases phaseGateCriteria P targetPhase with
      | none => exact iff_of_false (fun h => by cases h) fun h => by cases h
      | some c => exact ⟨fun h => congrArg some (Except.ok.inj h), fun h => congrArg _ (Option.some.inj h)⟩
    · rw [if_pos hnext]
      exact iff_of_false (fun h => by cases h) fun h => hnext h.1

/-! ### Payloads -/

theorem named_attemptPayload (fromPhase : Int) (result : GateResult P) (a : Attempt P) :
    NamedItems (attemptPayload fromPhase result a) :=
  .of_names [str "from_phase", str "to_phase", str "gate_passed", str "operator_id", str "timestamp",
    str "gate_digest", str "notes", str "criteria_results", str "evidence"] rfl (by decide) (by decide)

theorem named_demotionPayload (fromPhase : Int) (d : Demotion) :
    NamedItems (demotionPayload (P := P) fromPhase d) :=
  .of_names [str "from_phase", str "to_phase", str "operator_id", str "reason", str "timestamp"] rfl
    (by decide) (by decide)

theorem named_transitionRecord (fromPhase : Int) (result : GateResult P) (notes : Str) :
    NamedItems (transitionRecord fromPhase result notes) :=
  .of_names [str "from_phase", str "to_phase", str "gate_passed", str "operator_id", str "timestamp",
    str "gate_digest", str "notes"] rfl (by decide) (by decide)

theorem sortable_of_flat {ms : Members P.Float} (hms : NamedItems ms) (h : ∀ m ∈ ms, m.2.Flat) :
    Sortable P (.dict ms) :=
  FlatDict.sortable ⟨hms.ascii, hms.nodup, h⟩

theorem flat_toObj (n : Number P) : n.toObj.Flat := by
  cases n <;> trivial

theorem sortable_demotionPayload (fromPhase : Int) (d : Demotion) :
    Sortable P (.dict (demotionPayload fromPhase d)) := by
  refine sortable_of_flat (named_demotionPayload fromPhase d) ?_
  simp only [demotionPayload, List.forall_mem_cons]
  exact ⟨trivial, trivial, trivial, trivial, trivial, fun m hm => absurd hm List.not_mem_nil⟩

theorem sortable_transitionRecord (fromPhase : Int) (result : GateResult P) (notes : Str) :
    Sortable P (.dict (transitionRecord fromPhase result notes)) := by
  refine sortable_of_flat (named_transitionRecord fromPhase result notes) ?_
  simp only [transitionRecord, List.forall_mem_cons]
  exact ⟨trivial, trivial, trivial, trivial, trivial, trivial, trivial,
    fun m hm => absurd hm List.not_mem_nil⟩

/-- What a criterion compares can be written. -/
structure CriterionResult.Scalars (c : CriterionResult P) : Prop where
  actual : c.actual.Flat
  required : c.required.Flat

theorem CriterionResult.Scalars.sortable {c : CriterionResult P} (h : c.Scalars) :
    Sortable P c.asDict := by
  refine sortable_of_flat (.of_names [str "name", str "passed", str "actual", str "required",
    str "detail"] rfl (by decide) (by decide)) ?_
  simp only [List.forall_mem_cons]
  exact ⟨trivial, trivial, h.actual, h.required, trivial, fun m hm => absurd hm List.not_mem_nil⟩

theorem scalars_evaluateCriteria (R : Rounding P) (cleanEpochs : Int) (criteria : GateCriteria P)
    (evidence : TransitionEvidence P) :
    ∀ c ∈ evaluateCriteria R cleanEpochs criteria evidence, c.Scalars := by
  unfold evaluateCriteria
  simp only [List.forall_mem_cons]
  exact ⟨⟨trivial, trivial⟩, ⟨flat_toObj _, trivial⟩, ⟨flat_toObj _, trivial⟩, ⟨trivial, trivial⟩,
    ⟨trivial, trivial⟩, fun c hc => absurd hc List.not_mem_nil⟩

/-- The additional context of the evidence can be written. -/
def TransitionEvidence.Writable (e : TransitionEvidence P) : Prop :=
  ∀ context, e.additionalContext = some context → Sortable P (.dict context)

theorem sortable_evidence_iff {e : TransitionEvidence P} :
    Sortable P (.dict e.asDict) ↔ e.Writable := by
  have hnamed : NamedItems e.asDict := .of_names [str "approved_mutation_count", str "mutation_pass_rate",
    str "lineage_completeness", str "audit_chain_intact", str "consecutive_clean_epochs",
    str "additional_context"] rfl (by decide) (by decide)
  have hcontext : Sortable P ((e.additionalContext.map Value.dict).getD .none) ↔ e.Writable := by
    unfold TransitionEvidence.Writable
    cases e.additionalContext with
    | none => exact iff_of_true (Value.Flat.sortable trivial) fun context h => by cases h
    | some context => exact ⟨fun h context' heq => Option.some.inj heq ▸ h, fun h => h context rfl⟩
  rw [sortable_dict_iff fun m hm => hnamed.isString hm, ← hcontext]
  simp only [TransitionEvidence.asDict, List.forall_mem_cons]
  exact ⟨fun h => h.2.2.2.2.2.1, fun h => ⟨Value.Flat.sortable trivial, (flat_toObj _).sortable,
    (flat_toObj _).sortable, Value.Flat.sortable trivial, Value.Flat.sortable trivial, h,
    fun m hm => absurd hm List.not_mem_nil⟩⟩

theorem sortable_attemptPayload_iff {fromPhase : Int} {result : GateResult P} {a : Attempt P}
    (hresults : ∀ c ∈ result.criteriaResults, c.Scalars) :
    Sortable P (.dict (attemptPayload fromPhase result a)) ↔ a.evidence.Writable := by
  have hlist : Sortable P (.list (result.criteriaResults.map CriterionResult.asDict)) :=
    sortable_list_iff.mpr (List.forall_mem_map.mpr fun c hc => (hresults c hc).sortable)
  rw [sortable_dict_iff fun m hm => (named_attemptPayload fromPhase result a).isString hm,
    ← sortable_evidence_iff]
  constructor
  · exact fun h => h (.str (str "evidence"), .dict a.evidence.asDict)
      (List.mem_append_right _ (List.mem_cons_of_mem _ (List.mem_singleton_self _)))
  · intro h
    refine List.forall_mem_append.mpr ⟨fun m hm => ?_, ?_⟩
    · exact (sortable_dict_iff fun m hm => (named_transitionRecord fromPhase result a.notes).isString hm).mp
        (sortable_transitionRecord fromPhase result a.notes) m hm
    · simp only [List.forall_mem_cons]
      exact ⟨hlist, h, fun m hm => absurd hm List.not_mem_nil⟩

/-! ### Attempts -/

/-- The phase is the next one, and its criteria hold. -/
def GatePasses (R : Rounding P) (s : PhaseState P) (a : Attempt P) : Prop :=
  a.targetPhase = s.currentPhase + 1 ∧ ∃ criteria, phaseGateCriteria P a.targetPhase = some criteria ∧
    CriteriaHold R s.consecutiveCleanEpochs criteria a.evidence

theorem evaluateGate_eq_ok {R : Rounding P} {s : PhaseState P} {a : Attempt P} {result : GateResult P}
    (h : evaluateGate R s a.targetPhase a.evidence a.operatorId a.evaluatedAt = .ok result) :
    result.targetPhase = a.targetPhase ∧ (result.gatePassed = true ↔ GatePasses R s a) ∧
      ∀ c ∈ result.criteriaResults, c.Scalars := by
  unfold evaluateGate at h
  obtain ⟨criteria, hcriteria, h⟩ := bind_eq_ok.mp h
  obtain rfl := Except.ok.inj h
  obtain ⟨hnext, hsome⟩ := validateTargetPhase_eq_ok.mp hcriteria
  refine ⟨rfl, all_evaluateCriteria_iff.trans ⟨fun hhold => ⟨hnext, criteria, hsome, hhold⟩, ?_⟩,
    scalars_evaluateCriteria _ _ _ _⟩
  rintro ⟨-, criteria', hsome', hhold⟩
  obtain rfl := Option.some.inj (hsome.symm.trans hsome')
  exact hhold

theorem GatePasses.exists_evaluateGate {R : Rounding P} {s : PhaseState P} {a : Attempt P}
    (h : GatePasses R s a) :
    ∃ result, evaluateGate R s a.targetPhase a.evidence a.operatorId a.evaluatedAt = .ok result := by
  obtain ⟨hnext, criteria, hsome, -⟩ := h
  unfold evaluateGate
  exact ⟨_, bind_eq_ok.mpr ⟨criteria, validateTargetPhase_eq_ok.mpr ⟨hnext, hsome⟩, rfl⟩⟩

theorem replayEvent_attempt {phase toPhase : Int} {gatePassed : Bool} {e p : Members P.Float}
    (htype : get e (str "event_type") = some (.str (str "phase_transition_attempt")))
    (hpayload : get e (str "payload") = some (.dict p))
    (hphase : get p (str "to_phase") = some (.int toPhase))
    (hpassed : get p (str "gate_passed") = some (.bool gatePassed)) :
    replayEvent phase (.dict e) = if gatePassed then toPhase else phase := by
  unfold replayEvent
  dsimp only
  rw [htype, hpayload]
  dsimp only
  rw [hphase]
  dsimp only
  rw [if_neg (by decide), hpassed]
  cases gatePassed with
  | false => rfl
  | true => exact if_pos rfl

theorem replayEvent_demotion {phase toPhase : Int} {e p : Members P.Float}
    (htype : get e (str "event_type") = some (.str (str "phase_demotion")))
    (hpayload : get e (str "payload") = some (.dict p))
    (hphase : get p (str "to_phase") = some (.int toPhase)) :
    replayEvent phase (.dict e) = toPhase := by
  unfold replayEvent
  dsimp only
  rw [htype, hpayload]
  dsimp only
  rw [hphase]
  exact if_pos rfl

/-! ### What a run keeps -/

/-- One of the five phases, which the state file has and the audit log is replayed to. -/
structure KeptPhase (g : PhaseTransitionGate P) : Prop where
  nonneg : 0 ≤ g.state.currentPhase
  le : g.state.currentPhase ≤ 4
  history : g.state.Writable
  stored : ∃ s : PhaseState P, loadState g.stateFile = .ok s ∧ s.currentPhase = g.state.currentPhase ∧ s.Writable
  audit : Replays (P := P) g.auditFile g.state.currentPhase

namespace KeptPhase

variable {R : Rounding P} {g : PhaseTransitionGate P}

theorem new : KeptPhase (.new : PhaseTransitionGate P) where
  nonneg := le_refl _
  le := show (0 : Int) ≤ 4 by decide
  history _ hv := absurd hv List.not_mem_nil
  stored := ⟨.initial, rfl, rfl, fun _ hv => absurd hv List.not_mem_nil⟩
  audit := replays_nil

theorem exists_saveState {s : PhaseState P} (h : s.Writable) :
    ∃ file, saveState s = .ok file ∧
      ∃ s' : PhaseState P, loadState (some file) = .ok s' ∧ s'.currentPhase = s.currentPhase ∧ s'.Writable := by
  obtain ⟨file, history, hsave, hload, hhistory⟩ := Governance.exists_saveState h
  exact ⟨file, hsave, _, hload, rfl, hhistory⟩

theorem attempt_cases (h : KeptPhase g) (R : Rounding P) (a : Attempt P) :
    ((GatePasses R g.state a ∧ a.evidence.Writable) ∧ ∃ result g',
        g.attemptTransition R a = (.ok result, g') ∧ result.gatePassed = true ∧
          g'.state.currentPhase = a.targetPhase ∧ KeptPhase g') ∨
      ¬ (GatePasses R g.state a ∧ a.evidence.Writable) ∧ ∃ r g',
        g.attemptTransition R a = (r, g') ∧ (∀ result, r = .ok result → result.gatePassed = false) ∧
          g'.state.currentPhase = g.state.currentPhase ∧ KeptPhase g' := by
  unfold PhaseTransitionGate.attemptTransition
  cases hgate : evaluateGate R g.state a.targetPhase a.evidence a.operatorId a.evaluatedAt with
  | error e =>
    right
    refine ⟨fun hpasses => ?_, _, _, rfl, fun result hr => (by cases hr), rfl, h⟩
    obtain ⟨result, hresult⟩ := hpasses.1.exists_evaluateGate
    rw [hgate] at hresult
    cases hresult
  | ok result =>
    obtain ⟨htarget, hpassed, hscalars⟩ := evaluateGate_eq_ok hgate
    dsimp only
    cases hwrite : writeAudit g.auditFile (str "phase_transition_attempt")
        (attemptPayload g.state.currentPhase result a) a.now with
    | error e =>
      right
      refine ⟨fun hpasses => ?_, _, _, rfl, fun result hr => (by cases hr), rfl, h⟩
      obtain ⟨file, hfile⟩ := exists_writeAudit_iff.mpr
        ((sortable_attemptPayload_iff hscalars).mpr hpasses.2)
      rw [hwrite] at hfile
      cases hfile
    | ok auditFile =>
      have hwritable := (sortable_attemptPayload_iff hscalars).mp (exists_writeAudit_iff.mp ⟨_, hwrite⟩)
      obtain ⟨e, p, hreplays, htype, hpayload, hget⟩ := h.audit.writeAudit (by decide)
        (named_attemptPayload _ _ _) hwrite
      have hphase : get p (str "to_phase") = some (.int a.targetPhase) :=
        (hget _).trans (congrArg (fun t => some (Value.int t)) htarget)
      have hgatePassed : get p (str "gate_passed") = some (.bool result.gatePassed) := hget _
      rw [replayEvent_attempt htype hpayload hphase hgatePassed] at hreplays
      dsimp only
      cases hresult : result.gatePassed with
      | false =>
        right
        rw [hresult, if_neg Bool.false_ne_true] at hreplays
        rw [if_neg Bool.false_ne_true]
        refine ⟨fun hpasses => ?_, _, _, rfl, fun r hr => Except.ok.inj hr ▸ hresult, rfl,
          ⟨h.nonneg, h.le, h.history, h.stored, hreplays⟩⟩
        rw [hpassed.mpr hpasses.1] at hresult
        cases hresult
      | true =>
        left
        rw [hresult, if_pos rfl] at hreplays
        have hpasses := hpassed.mp hresult
        obtain ⟨hlow, hhigh⟩ := bounds_of_phaseGateCriteria hpasses.2.choose_spec.1
        have hhistory : PhaseState.Writable
            { g.state with
              currentPhase := a.targetPhase
              transitionHistory := g.state.transitionHistory ++
                [.dict (transitionRecord g.state.currentPhase result a.notes)] } :=
          List.forall_mem_append.mpr ⟨h.history,
            List.forall_mem_singleton.mpr (sortable_transitionRecord _ _ _)⟩
        obtain ⟨stateFile, hsave, hstored⟩ := exists_saveState hhistory
        rw [if_pos rfl, hsave]
        exact ⟨⟨hpasses, hwritable⟩, result, _, rfl, hresult, rfl,
          ⟨by show 0 ≤ a.targetPhase; omega, hhigh, hhistory, hstored, hreplays⟩⟩

theorem demote_cases (h : KeptPhase g) (d : Demotion) :
    (∃ g', g.demotePhase d = (.ok (), g') ∧ g'.state.currentPhase ≤ g.state.currentPhase ∧
        KeptPhase g') ∨
      ∃ e, g.demotePhase d = (.error e, g) := by
  unfold PhaseTransitionGate.demotePhase
  by_cases hhigh : d.toPhase > g.state.currentPhase
  · rw [if_pos hhigh]
    exact .inr ⟨_, rfl⟩
  · by_cases hlow : d.toPhase < 0
    · rw [if_neg hhigh, if_pos hlow]
      exact .inr ⟨_, rfl⟩
    · left
      have hhistory : PhaseState.Writable
          { g.state with currentPhase := d.toPhase, consecutiveCleanEpochs := 0 } := h.history
      obtain ⟨stateFile, hsave, hstored⟩ := exists_saveState hhistory
      obtain ⟨auditFile, hwrite⟩ : ∃ file, writeAudit g.auditFile (str "phase_demotion")
          (demotionPayload (P := P) g.state.currentPhase d) d.now = .ok file :=
        exists_writeAudit_iff.mpr (sortable_demotionPayload g.state.currentPhase d)
      obtain ⟨e, p, hreplays, htype, hpayload, hget⟩ := h.audit.writeAudit (by decide)
        (named_demotionPayload _ _) hwrite
      rw [replayEvent_demotion htype hpayload (hget _)] at hreplays
      have hle := h.le
      rw [if_neg hhigh, if_neg hlow]
      dsimp only
      rw [hsave]
      dsimp only
      rw [hwrite]
      refine ⟨_, rfl, ?_, ⟨?_, ?_, hhistory, hstored, hreplays⟩⟩
      · show d.toPhase ≤ g.state.currentPhase
        omega
      · show 0 ≤ d.toPhase
        omega
      · show d.toPhase ≤ 4
        omega

theorem recordEpochOutcome_eq (h : KeptPhase g) (clean : Bool) :
    ∃ g', g.recordEpochOutcome clean = (.ok (), g') ∧
      g'.state.currentPhase = g.state.currentPhase ∧ KeptPhase g' := by
  have hhistory : PhaseState.Writable
      { g.state with consecutiveCleanEpochs := if clean then g.state.consecutiveCleanEpochs + 1 else 0 } :=
    h.history
  obtain ⟨stateFile, hsave, hstored⟩ := exists_saveState hhistory
  unfold PhaseTransitionGate.recordEpochOutcome
  dsimp only
  rw [hsave]
  exact ⟨_, rfl, rfl, ⟨h.nonneg, h.le, hhistory, hstored, h.audit⟩⟩

theorem restart_eq (h : KeptPhase g) :
    g.restart.state.currentPhase = g.state.currentPhase ∧ KeptPhase g.restart := by
  obtain ⟨s, hload, hphase, hwritable⟩ := h.stored
  unfold PhaseTransitionGate.restart
  rw [hload]
  refine ⟨hphase, ⟨?_, ?_, hwritable, ⟨s, hload, rfl, hwritable⟩, ?_⟩⟩
  · exact hphase.symm ▸ h.nonneg
  · exact hphase.symm ▸ h.le
  · exact hphase.symm ▸ h.audit

end KeptPhase

/-! ### Runs -/

section run

variable (R : Rounding P)

/-- The phase is one of the five, and the one that the audit log is replayed to. -/
def Tied (g : PhaseTransitionGate P) : Prop :=
  (0 ≤ g.state.currentPhase ∧ g.state.currentPhase ≤ 4) ∧
    replayPhase P g.auditFile = some g.state.currentPhase

/-- A call that fails or raises leaves the phase, and one that raises it is an attempt at the next phase
that somebody has made and whose criteria hold. -/
def Lawful (g : PhaseTransitionGate P) (a : PhaseAction P) : Prop :=
  ((g.call R a).1 = false → (g.step R a).state.currentPhase = g.state.currentPhase) ∧
    (g.state.currentPhase < (g.step R a).state.currentPhase →
      ∃ attempt, a = .attemptTransition attempt ∧
        (g.step R a).state.currentPhase = g.state.currentPhase + 1 ∧
        attempt.targetPhase = g.state.currentPhase + 1 ∧ strip attempt.operatorId ≠ [] ∧
        ∃ criteria, phaseGateCriteria P attempt.targetPhase = some criteria ∧
          CriteriaHold R g.state.consecutiveCleanEpochs criteria attempt.evidence)

/-- An attempt that passes the gate, and whose evidence can be written, is made under a name. -/
def Identified (g : PhaseTransitionGate P) : PhaseAction P → Prop
  | .attemptTransition a =>
    GatePasses R g.state a → a.evidence.Writable → strip a.operatorId ≠ []
  | _ => True

variable {R} {g : PhaseTransitionGate P} {a : PhaseAction P}

theorem KeptPhase.tied (h : KeptPhase g) : Tied g :=
  ⟨⟨h.nonneg, h.le⟩, h.audit.replayPhase_eq⟩

theorem KeptPhase.step (h : KeptPhase g) (a : PhaseAction P) : KeptPhase (g.step R a) := by
  unfold PhaseTransitionGate.step PhaseTransitionGate.call
  cases a with
  | attemptTransition a =>
    rcases h.attempt_cases R a with ⟨-, result, g', heq, -, -, hkept⟩ | ⟨-, r, g', heq, -, -, hkept⟩
    · dsimp only
      rw [heq]
      exact hkept
    · dsimp only
      rw [heq]
      cases r <;> exact hkept
  | recordEpochOutcome clean =>
    obtain ⟨g', heq, -, hkept⟩ := h.recordEpochOutcome_eq clean
    dsimp only
    rw [heq]
    exact hkept
  | demotePhase d =>
    rcases h.demote_cases d with ⟨g', heq, -, hkept⟩ | ⟨e, heq⟩
    · dsimp only
      rw [heq]
      exact hkept
    · dsimp only
      rw [heq]
      exact h
  | restart => exact h.restart_eq.2

theorem KeptPhase.lawful_iff (h : KeptPhase g) (a : PhaseAction P) :
    Lawful R g a ↔ Identified R g a := by
  unfold Lawful PhaseTransitionGate.step PhaseTransitionGate.call Identified
  cases a with
  | attemptTransition a =>
    dsimp only
    rcases h.attempt_cases R a with
      ⟨⟨hpasses, hwritable⟩, result, g', heq, hpassed, hphase, -⟩ | ⟨hnot, r, g', heq, hfailed, hphase, -⟩
    · have hrises : g.state.currentPhase < g'.state.currentPhase := by
        rw [hphase, hpasses.1]
        omega
      rw [heq]
      dsimp only
      constructor
      · intro hlawful hpasses' hwritable'
        obtain ⟨attempt, hattempt, -, -, hnamed, -⟩ := hlawful.2 hrises
        obtain rfl := PhaseAction.attemptTransition.inj hattempt
        exact hnamed
      · intro hidentified
        refine ⟨fun hfalse => ?_, fun _ => ⟨a, rfl, hphase.trans hpasses.1, hpasses.1,
          hidentified hpasses hwritable, hpasses.2⟩⟩
        rw [hpassed] at hfalse
        cases hfalse
    · rw [heq]
      refine iff_of_true ⟨fun _ => ?_, fun hrises => ?_⟩ fun hpasses hwritable =>
        absurd ⟨hpasses, hwritable⟩ hnot
      · cases r <;> exact hphase
      · have hsame : ¬ g.state.currentPhase < g'.state.currentPhase := by omega
        cases r <;> exact absurd hrises hsame
  | recordEpochOutcome clean =>
    obtain ⟨g', heq, hphase, -⟩ := h.recordEpochOutcome_eq clean
    dsimp only
    rw [heq]
    refine iff_of_true ⟨fun _ => hphase, fun hrises => ?_⟩ trivial
    exact absurd hrises (by dsimp only; omega)
  | demotePhase d =>
    dsimp only
    rcases h.demote_cases d with ⟨g', heq, hle, -⟩ | ⟨e, heq⟩
    · rw [heq]
      exact iff_of_true ⟨fun hfalse => (by cases hfalse), fun hrises => absurd hrises (not_lt.mpr hle)⟩ trivial
    · rw [heq]
      exact iff_of_true ⟨fun _ => rfl, fun hrises => absurd hrises (lt_irrefl _)⟩ trivial
  | restart =>
    refine iff_of_true ⟨fun hfalse => (by cases hfalse), fun hrises => ?_⟩ trivial
    exact absurd hrises (by dsimp only; rw [h.restart_eq.1]; exact lt_irrefl _)

/-- In every run the phase is one of the five and the one that the audit log is replayed to; it changes
as it should exactly where every attempt that passes is made under a name. -/
theorem always_tied_and_lawful_iff (R : Rounding P) (as : List (PhaseAction P)) :
    Run.Always (PhaseTransitionGate.step R) Tied .new as ∧
        Run.Meets (PhaseTransitionGate.step R) (Lawful R) .new as ↔
      Run.Meets (PhaseTransitionGate.step R) (Identified R) .new as := by
  have hmeets : Run.Meets (PhaseTransitionGate.step R) (Lawful R) .new as ↔
      Run.Meets (PhaseTransitionGate.step R) (Identified R) .new as :=
    Run.meets_congr_of_invariant (fun _ a (h : KeptPhase _) => h.step a) (fun _ a h => h.lawful_iff a)
      KeptPhase.new
  have halways : Run.Always (PhaseTransitionGate.step R) KeptPhase .new as :=
    Run.always_of_forall_step (fun _ a h => h.step a) KeptPhase.new as
  rw [← hmeets]
  exact and_iff_right (halways.imp fun _ h => h.tied)

end run

def wholeRates : Rounding reference where
  round4 := id
  fixed4 _ := str "1.0000"

def unnamedAttempt : Attempt reference where
  targetPhase := 1
  evidence := ⟨1, .inl 1, .inl 1, true, 1, none⟩
  operatorId := []
  notes := []
  evaluatedAt := str "t"
  now := str "t"

/-- An attempt under a blank name passes. -/
theorem not_always_lawful :
    ¬ ∀ as, Run.Always (PhaseTransitionGate.step wholeRates) Tied .new as ∧
      Run.Meets (PhaseTransitionGate.step wholeRates) (Lawful wholeRates) .new as := by
  intro h
  have hlawful := (h [.attemptTransition unnamedAttempt]).2.1
  rw [KeptPhase.new.lawful_iff] at hlawful
  have hpasses : GatePasses wholeRates PhaseState.initial unnamedAttempt := by
    refine ⟨rfl, _, rfl, ?_⟩
    exact all_evaluateCriteria_iff.mp (by decide +kernel)
  exact hlawful hpasses (fun context hcontext => by cases hcontext) rfl

end Adaad.Governance
