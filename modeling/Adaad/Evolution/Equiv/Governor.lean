import Adaad.Evolution.Governor
import Adaad.Run

/-!
# A governor that is closed

While a governor is closed it accepts nothing and records no bundle (`validateBundle_spec`).  That it is
closed is nowhere but in the object, though: one that is created anew on the same ledger is open.
-/

namespace Adaad.Evolution.Governor

open Py Lineage Method Run

variable {P : Platform} {C : Components P}

/-! ### What a call keeps -/

/-- A property of whether the governor is closed, and of the entries of its ledger. -/
def On (K : Bool → List (Members P.Float) → Prop) (g : EvolutionGovernor C) : Prop :=
  K g.failClosed g.entries

/-- The property stays when an entry of this type is appended. -/
def Admits (K : Bool → List (Members P.Float) → Prop) (eventType : Str) : Prop :=
  ∀ f es payload, K f es → K f (es ++ [entryOf eventType payload])

section keeps

variable {K : Bool → List (Members P.Float) → Prop}

theorem keeps_chargeEntropy (cost : Int) : Keeps (On K) (chargeEntropy (C := C) cost) := by
  intro g hg
  unfold chargeEntropy
  rw [run_mk]
  cases henvelope : g.envelope with
  | none => exact hg
  | some e =>
    dsimp only
    by_cases hover : e.budget < e.consumed + cost
    · rw [if_pos hover]
      exact hg
    · rw [if_neg hover]
      exact hg

theorem keeps_access : Keeps (On K) (access (C := C)) := by
  intro g hg
  unfold access
  rw [run_mk]
  by_cases hfault : g.faults.headD false = true
  · rw [if_pos hfault]
    exact hg
  · rw [if_neg hfault]
    exact hg

theorem keeps_raising {α : Type} (x : Except Exc α) : Keeps (On K) (raising (C := C) x) :=
  keeps_ofExcept

theorem keeps_appendEvent {eventType : Str} (h : Admits K eventType) (payload : Members P.Float) :
    Keeps (On K) (appendEvent (C := C) eventType payload) :=
  keeps_access.bind fun _ => keeps_change fun g hg => h g.failClosed g.entries payload hg

theorem keeps_readEpoch (epochId : Str) : Keeps (On K) (readEpoch (C := C) epochId) :=
  keeps_access.bind fun _ => (keeps_chargeEntropy 3).bind fun _ => keeps_state.bind fun _ =>
    keeps_raising _

theorem keeps_updateEpochDigest (epochId digest : Str) :
    Keeps (On K) (updateEpochDigest (C := C) epochId digest) :=
  keeps_change fun _ hg => hg

theorem keeps_getEpochDigest (epochId : Str) : Keeps (On K) (getEpochDigest (C := C) epochId) := by
  refine keeps_state.bind fun g => ?_
  cases g.epochDigestIndex.lookup epochId with
  | some digest => exact keeps_pure
  | none =>
    refine (keeps_readEpoch epochId).bind fun entries => ?_
    rcases entries.foldl (noteEpochDigest P) none with _ | _ | ⟨c, digest⟩
    · exact keeps_pure
    · exact keeps_pure
    · exact (keeps_updateEpochDigest epochId _).bind fun _ => keeps_pure

theorem keeps_appendBundleWithDigest (h : Admits K mutationBundleEvent) (epochId : Str)
    (bundleEvent : Members P.Float) :
    Keeps (On K) (appendBundleWithDigest (C := C) epochId bundleEvent) :=
  (keeps_getEpochDigest epochId).bind fun _ => (keeps_raising _).bind fun _ =>
    (keeps_raising _).bind fun _ => (keeps_appendEvent h _).bind fun _ =>
      keeps_updateEpochDigest epochId _

theorem keeps_emitMutationEvidenceEvent (h : Admits K mutationEvidenceEvent)
    (request : MutationRequest P) (epochId : Str) (decision : GovernanceDecision P) (accepted : Bool) :
    Keeps (On K) (emitMutationEvidenceEvent (C := C) request epochId decision accepted) :=
  (keeps_raising _).bind fun _ => keeps_appendEvent h _

theorem keeps_recordDecision (hdecision : Admits K governanceDecisionEvent)
    (hevidence : Admits K mutationEvidenceEvent) (request : MutationRequest P) (epochId : Str)
    {decision : GovernanceDecision P}
    (hbundle : decision.certificate ≠ none → Admits K mutationBundleEvent) (impactScore : P.Float) :
    Keeps (On K) (recordDecision (C := C) request epochId decision impactScore) := by
  refine keeps_state.bind fun g => ?_
  rcases hcertificate : decision.certificate with _ | _ | ⟨m, certificate⟩
  · exact (keeps_appendEvent hdecision _).bind fun _ =>
      keeps_emitMutationEvidenceEvent hevidence request epochId decision false
  · exact (keeps_appendEvent hdecision _).bind fun _ =>
      keeps_emitMutationEvidenceEvent hevidence request epochId decision false
  · have hadmits := hbundle (by rw [hcertificate]; exact Option.some_ne_none _)
    exact (keeps_appendBundleWithDigest hadmits epochId _).bind fun _ =>
      keeps_emitMutationEvidenceEvent hevidence request epochId decision true

theorem triple_recorded (hdecision : Admits K governanceDecisionEvent)
    (hevidence : Admits K mutationEvidenceEvent) (request : MutationRequest P) (epochId : Str)
    {decision : GovernanceDecision P} (hcertificate : decision.certificate = none)
    (impactScore : P.Float) :
    Triple (On K) (recorded (C := C) request epochId decision impactScore)
      (fun d g => d = decision ∧ On K g) (On K) :=
  Triple.bind (keeps_recordDecision hdecision hevidence request epochId
    (fun hne => absurd hcertificate hne) impactScore) fun _ => triple_pure fun _ hg => ⟨rfl, hg⟩

theorem keeps_issueCertificate (request : MutationRequest P) (epochId : Str) (impactScore : P.Float)
    (bundleId : Str) :
    Keeps (On K) (issueCertificate (C := C) request epochId impactScore bundleId) :=
  keeps_state.bind fun _ => (keeps_raising _).bind fun _ => (keeps_raising _).bind fun _ =>
    (keeps_raising _).bind fun _ => (keeps_raising _).bind fun _ =>
      (keeps_getEpochDigest epochId).bind fun _ => (keeps_raising _).bind fun _ => keeps_pure

theorem keeps_applyMetricsFeedbackLoop (hconfig : Admits K governorConfigEvent) (world : C.World)
    (epochId : Str) : Keeps (On K) (applyMetricsFeedbackLoop world epochId) := by
  refine keeps_state.bind fun g => ?_
  dsimp only
  refine Keeps.bind (keeps_change fun _ hg => hg) fun _ => ?_
  refine Keeps.bind ?_ fun _ => ?_
  · rcases (C.feedback world epochId g.manager g.entropyBudget).parameters with _ | ⟨before, after⟩
    · exact keeps_pure
    · exact keeps_appendEvent hconfig _
  · by_cases hbudget : (C.feedback world epochId g.manager g.entropyBudget).entropyBudget ≠
        g.entropyBudget
    · rw [if_pos hbudget]
      exact keeps_appendEvent hconfig _
    · rw [if_neg hbudget]
      exact keeps_pure

theorem keeps_evaluateMutationBudget (request : MutationRequest P) (epochId bundleId : Str)
    (impactTotal : P.Float) :
    Keeps (On K) (evaluateMutationBudget (C := C) request epochId bundleId impactTotal) :=
  keeps_state.bind fun _ => Keeps.bind (keeps_change fun _ hg => hg) fun _ => keeps_pure

theorem keeps_recorded (hdecision : Admits K governanceDecisionEvent)
    (hevidence : Admits K mutationEvidenceEvent) (hbundle : Admits K mutationBundleEvent)
    (request : MutationRequest P) (epochId : Str) (decision : GovernanceDecision P)
    (impactScore : P.Float) :
    Keeps (On K) (recorded (C := C) request epochId decision impactScore) :=
  (keeps_recordDecision hdecision hevidence request epochId (fun _ => hbundle)
    impactScore).bind fun _ => keeps_pure

theorem keeps_validateImpact (hdecision : Admits K governanceDecisionEvent)
    (hevidence : Admits K mutationEvidenceEvent) (hbundle : Admits K mutationBundleEvent)
    (hconfig : Admits K governorConfigEvent) (world : C.World) (request : MutationRequest P)
    (epochId : Str) : Keeps (On K) (validateImpact world request epochId) := by
  refine (keeps_chargeEntropy 1).bind fun _ => keeps_state.bind fun g => ?_
  dsimp only
  by_cases himpact : C.less g.maxImpact (C.impact request) = true
  · rw [if_pos himpact]
    exact keeps_recorded hdecision hevidence hbundle _ _ _ _
  rw [if_neg himpact]
  by_cases hauthority : C.less (authorityThreshold request.authorityLevel) (C.impact request) = true
  · rw [if_pos hauthority]
    exact keeps_recorded hdecision hevidence hbundle _ _ _ _
  rw [if_neg hauthority]
  refine (keeps_raising _).bind fun bundleId => ?_
  refine (keeps_applyMetricsFeedbackLoop hconfig world epochId).bind fun _ => ?_
  refine (keeps_evaluateMutationBudget request epochId bundleId _).bind fun budgetDecision => ?_
  by_cases haccepted : budgetDecision.accepted = false
  · rw [if_pos haccepted]
    exact keeps_recorded hdecision hevidence hbundle _ _ _ _
  · rw [if_neg haccepted]
    exact (keeps_issueCertificate request epochId _ bundleId).bind fun _ =>
      keeps_recorded hdecision hevidence hbundle _ _ _ _

end keeps

/-! ### What a call appends -/

/-- All that comes behind the entries is of types that are allowed. -/
def Extends (allowed : Str → Prop) (before after : List (Members P.Float)) : Prop :=
  ∃ new, after = before ++ new ∧ ∀ e ∈ new, ∃ eventType payload,
    e = entryOf eventType payload ∧ allowed eventType

theorem extends_refl (allowed : Str → Prop) (es : List (Members P.Float)) : Extends allowed es es :=
  ⟨[], (List.append_nil es).symm, fun _ h => absurd h List.not_mem_nil⟩

theorem Extends.append {allowed : Str → Prop} {before after : List (Members P.Float)}
    (h : Extends allowed before after) {eventType : Str} (htype : allowed eventType)
    (payload : Members P.Float) : Extends allowed before (after ++ [entryOf eventType payload]) := by
  obtain ⟨new, rfl, hnew⟩ := h
  refine ⟨new ++ [entryOf eventType payload], List.append_assoc _ _ _, ?_⟩
  exact List.forall_mem_append.mpr ⟨hnew, List.forall_mem_singleton.mpr ⟨eventType, payload, rfl, htype⟩⟩

theorem Extends.imp {allowed allowed' : Str → Prop} {before after : List (Members P.Float)}
    (h : Extends allowed before after) (himp : ∀ t, allowed t → allowed' t) :
    Extends allowed' before after := by
  obtain ⟨new, heq, hnew⟩ := h
  refine ⟨new, heq, fun e he => ?_⟩
  obtain ⟨eventType, payload, heq, hallowed⟩ := hnew e he
  exact ⟨eventType, payload, heq, himp _ hallowed⟩

/-- Neither the start nor the end of an epoch. -/
def Neutral (eventType : Str) : Prop :=
  eventType ≠ epochStartEvent ∧ eventType ≠ epochEndEvent

def NoBundle (eventType : Str) : Prop :=
  eventType ≠ mutationBundleEvent

/-- The entry is of this type and in this epoch. -/
def IsEvent (eventType epochId : Str) (e : Members P.Float) : Prop :=
  isText (get e typeKey) eventType = true ∧ isInEpoch P epochId e = .ok true

def Live (epochId : Str) (es : List (Members P.Float)) : Prop :=
  (∃ e ∈ es, IsEvent epochStartEvent epochId e) ∧ ∀ e ∈ es, ¬ IsEvent epochEndEvent epochId e

theorem isText_entryOf {eventType : Str} {payload : Members P.Float} {t : Str} :
    isText (get (entryOf eventType payload) typeKey) t = true ↔ eventType = t := by
  have hget : get (entryOf eventType payload) typeKey = some (.str eventType) := get_cons_self _ _ _
  rw [hget]
  exact decide_eq_true_iff

theorem live_iff_of_extends {epochId : Str} {before after : List (Members P.Float)}
    (h : Extends Neutral before after) : Live epochId before ↔ Live epochId after := by
  obtain ⟨new, rfl, hnew⟩ := h
  have hnone : ∀ e ∈ new, ¬ IsEvent epochStartEvent epochId e ∧ ¬ IsEvent epochEndEvent epochId e := by
    intro e he
    obtain ⟨eventType, payload, rfl, hstart, hend⟩ := hnew e he
    exact ⟨fun hevent => hstart (isText_entryOf.mp hevent.1), fun hevent =>
      hend (isText_entryOf.mp hevent.1)⟩
  constructor
  · rintro ⟨⟨e, he, hstart⟩, hend⟩
    exact ⟨⟨e, List.mem_append_left new he, hstart⟩,
      List.forall_mem_append.mpr ⟨hend, fun e he => (hnone e he).2⟩⟩
  · rintro ⟨⟨e, he, hstart⟩, hend⟩
    refine ⟨⟨e, ?_, hstart⟩, (List.forall_mem_append.mp hend).1⟩
    rcases List.mem_append.mp he with he | he
    · exact he
    · exact absurd hstart (hnone e he).1

theorem triple_epochStarted (epochId : Str) {K : Bool → List (Members P.Float) → Prop} :
    Triple (On K) (epochStarted (C := C) epochId)
      (fun started g => (started = true → Live epochId g.entries) ∧ On K g) (On K) := by
  refine Triple.bind (Q := fun es g =>
    (∀ e, e ∈ es ↔ e ∈ g.entries ∧ isInEpoch P epochId e = .ok true) ∧ On K g) ?_ fun es => ?_
  · refine Triple.bind keeps_access fun _ => Triple.bind (keeps_chargeEntropy 3) fun _ => ?_
    refine Triple.bind (triple_state (Q := fun s g => s = g ∧ On K g) fun g hg => ⟨rfl, hg⟩) fun s => ?_
    refine triple_ofExcept ?_ fun g hg => hg.2
    rintro es hes g ⟨rfl, hg⟩
    exact ⟨mem_of_filterM_eq_ok (mapError_eq_ok.mp hes), hg⟩
  · refine triple_pure ?_
    rintro g ⟨hes, hg⟩
    refine ⟨fun hstarted => ?_, hg⟩
    rw [Bool.and_eq_true, List.any_eq_true, Bool.not_eq_true', List.any_eq_false] at hstarted
    obtain ⟨⟨e, he, htype⟩, hend⟩ := hstarted
    refine ⟨⟨e, ((hes e).mp he).1, htype, ((hes e).mp he).2⟩, ?_⟩
    rintro e he ⟨htype, hepoch⟩
    exact hend e ((hes e).mpr ⟨he, hepoch⟩) htype

/-! ### Validation -/

def Quiet (eventType : Str) : Prop :=
  Neutral eventType ∧ NoBundle eventType

def QuietSince (before : List (Members P.Float)) (_ : Bool) (es : List (Members P.Float)) : Prop :=
  Extends Quiet before es

/-- The governor is closed, and only quiet entries have been appended. -/
def ClosedSince (before : List (Members P.Float)) (failClosed : Bool) (es : List (Members P.Float)) :
    Prop :=
  failClosed = true ∧ Extends Quiet before es

/-- The governor is open, and only neutral entries have been appended. -/
def OpenSince (before : List (Members P.Float)) (failClosed : Bool) (es : List (Members P.Float)) :
    Prop :=
  failClosed = false ∧ Extends Neutral before es

/-- The governor is open, and only quiet entries have been appended. -/
def OpenQuietSince (before : List (Members P.Float)) (failClosed : Bool)
    (es : List (Members P.Float)) : Prop :=
  failClosed = false ∧ Extends Quiet before es

def Settled (before : List (Members P.Float)) (failClosed : Bool) (es : List (Members P.Float)) : Prop :=
  ClosedSince before failClosed es ∨ OpenSince before failClosed es

section validation

variable {before : List (Members P.Float)} {t : Str}

theorem admits_quietSince (h : Quiet t) : Admits (QuietSince before) t :=
  fun _ _ payload hes => hes.append h payload

theorem admits_closedSince (h : Quiet t) : Admits (ClosedSince before) t :=
  fun _ _ payload hes => ⟨hes.1, hes.2.append h payload⟩

theorem admits_openSince (h : Neutral t) : Admits (OpenSince before) t :=
  fun _ _ payload hes => ⟨hes.1, hes.2.append h payload⟩

theorem admits_openQuietSince (h : Quiet t) : Admits (OpenQuietSince before) t :=
  fun _ _ payload hes => ⟨hes.1, hes.2.append h payload⟩

theorem admits_settled (h : Quiet t) : Admits (Settled before) t := by
  rintro f es payload (hes | hes)
  · exact .inl (admits_closedSince h f es payload hes)
  · exact .inr (admits_openSince h.1 f es payload hes)

theorem quiet_governanceDecisionEvent : Quiet governanceDecisionEvent :=
  ⟨⟨by decide, by decide⟩, by unfold NoBundle; decide⟩

theorem quiet_mutationEvidenceEvent : Quiet mutationEvidenceEvent :=
  ⟨⟨by decide, by decide⟩, by unfold NoBundle; decide⟩

theorem neutral_mutationBundleEvent : Neutral mutationBundleEvent :=
  ⟨by decide, by decide⟩

theorem neutral_governorConfigEvent : Neutral governorConfigEvent :=
  ⟨by decide, by decide⟩

theorem OpenQuietSince.openSince {f : Bool} {es : List (Members P.Float)}
    (h : OpenQuietSince before f es) : OpenSince before f es :=
  ⟨h.1, h.2.imp fun _ ht => ht.1⟩

theorem QuietSince.settled {f : Bool} {es : List (Members P.Float)} (h : QuietSince before f es) :
    Settled before f es := by
  cases f with
  | false => exact .inr ⟨rfl, Extends.imp h fun _ ht => ht.1⟩
  | true => exact .inl ⟨rfl, h⟩

/-- What is decided while the governor is closed is no acceptance. -/
def Decided (before : List (Members P.Float)) (d : GovernanceDecision P) (g : EvolutionGovernor C) :
    Prop :=
  On (Settled before) g ∧ (g.failClosed = true → d.accepted = false)

theorem Keeps.triple_bind {E S α β : Type} {I R : S → Prop} {Q : β → S → Prop} {m : Method E S α}
    {f : α → Method E S β} (h : Keeps I m) (hR : ∀ s, I s → R s) (hf : ∀ a, Triple I (f a) Q R) :
    Triple I (m >>= f) Q R :=
  Triple.bind (h.imp (fun _ hs => hs) (fun _ _ hs => hs) hR) hf

theorem triple_rejection {K : Bool → List (Members P.Float) → Prop}
    (hdecision : Admits K governanceDecisionEvent) (hevidence : Admits K mutationEvidenceEvent)
    (hK : ∀ f es, K f es → Settled before f es) (request : MutationRequest P) (epochId : Str)
    (reason replayStatus : String) (impactScore : P.Float) :
    Triple (On K) (recorded (C := C) request epochId (rejection reason replayStatus) impactScore)
      (fun d g => Decided before d g ∧ d.accepted = false) (On (Settled before)) := by
  refine (triple_recorded hdecision hevidence request epochId rfl impactScore).imp (fun _ hg => hg) ?_
    fun g hg => hK _ _ hg
  rintro d g ⟨rfl, hg⟩
  exact ⟨⟨hK _ _ hg, fun _ => rfl⟩, rfl⟩

theorem triple_enterFailClosed (reason epochId : Str) (tier : RecoveryTier) :
    Triple (On (QuietSince before)) (enterFailClosed (C := C) reason epochId tier)
      (fun _ => On (ClosedSince before)) (On (ClosedSince before)) :=
  Triple.bind (Q := fun _ => On (ClosedSince before)) (triple_change fun _ hg => ⟨rfl, hg⟩) fun _ =>
    keeps_appendEvent (admits_closedSince quiet_governanceDecisionEvent) _

theorem triple_validateLineage (world : C.World) (request : MutationRequest P) (epochId : Str) :
    Triple (On (OpenQuietSince before)) (validateLineage world request epochId)
      (Decided before) (On (Settled before)) := by
  have hsettled : ∀ f es, OpenQuietSince (P := P) before f es → Settled before f es :=
    fun _ _ h => .inr h.openSince
  have hreject : ∀ reason replayStatus : String,
      Triple (On (OpenQuietSince before))
        (recorded (C := C) request epochId (rejection reason replayStatus) zero) (Decided before)
        (On (Settled before)) := fun reason replayStatus =>
    (triple_rejection (admits_openQuietSince quiet_governanceDecisionEvent)
      (admits_openQuietSince quiet_mutationEvidenceEvent) hsettled request epochId reason replayStatus
      zero).imp (fun _ hg => hg) (fun _ _ hd => hd.1) fun _ hg => hg
  refine Keeps.triple_bind (keeps_chargeEntropy 1) (fun g hg => hsettled _ _ hg) fun _ => ?_
  by_cases hsignature : C.signatureValid world request.signature = false
  · rw [if_pos hsignature]
    exact hreject _ _
  rw [if_neg hsignature]
  by_cases hcontinuity : request.nonce = [] ∨ request.generationTs = []
  · rw [if_pos hcontinuity]
    exact hreject _ _
  rw [if_neg hcontinuity]
  refine Keeps.triple_bind (keeps_raising _) (fun g hg => hsettled _ _ hg) fun verdict => ?_
  obtain ⟨ok, reason⟩ := verdict
  dsimp only
  by_cases hviolation : ok = false ∧ reason = str "lineage_violation_detected"
  · rw [if_pos hviolation]
    refine Triple.bind (Q := fun _ => On (ClosedSince before)) ?_ fun _ => ?_
    · exact (triple_enterFailClosed _ _ _).imp (fun g hg => hg.2) (fun _ _ hg => hg)
        fun g hg => .inl hg
    · exact (triple_rejection (admits_closedSince quiet_governanceDecisionEvent)
        (admits_closedSince quiet_mutationEvidenceEvent) (fun _ _ h => .inl h) request epochId _ _
        zero).imp (fun _ hg => hg) (fun _ _ hd => hd.1) fun _ hg => hg
  · rw [if_neg hviolation]
    refine (keeps_validateImpact (K := OpenSince before)
      (admits_openSince quiet_governanceDecisionEvent.1) (admits_openSince quiet_mutationEvidenceEvent.1)
      (admits_openSince neutral_mutationBundleEvent) (admits_openSince neutral_governorConfigEvent) world
      request epochId).imp (fun g hg => hg.openSince) ?_ fun g hg => .inr hg
    intro d g hg
    refine ⟨.inr hg, fun hclosed => ?_⟩
    rw [hg.1] at hclosed
    cases hclosed

theorem triple_validateBundleInternal (world : C.World) (request : MutationRequest P) (epochId : Str) :
    Triple (On (QuietSince before)) (validateBundleInternal world request epochId)
      (fun d g => Decided before d g ∧
        (d.accepted = true → epochId ≠ [] ∧ Live epochId before)) (On (Settled before)) := by
  have hreject : ∀ reason replayStatus : String,
      Triple (On (QuietSince before))
        (recorded (C := C) request epochId (rejection reason replayStatus) zero)
        (fun d g => Decided before d g ∧
          (d.accepted = true → epochId ≠ [] ∧ Live epochId before)) (On (Settled before)) := by
    intro reason replayStatus
    refine (triple_rejection (admits_quietSince quiet_governanceDecisionEvent)
      (admits_quietSince quiet_mutationEvidenceEvent) (fun _ _ h => h.settled) request epochId reason
      replayStatus zero).imp (fun _ hg => hg) ?_ fun _ hg => hg
    rintro d g ⟨hd, hrejected⟩
    refine ⟨hd, fun haccepted => ?_⟩
    rw [hrejected] at haccepted
    cases haccepted
  refine Keeps.triple_bind (keeps_chargeEntropy 1) (fun g hg => QuietSince.settled hg) fun _ => ?_
  refine Triple.bind (triple_state (Q := fun s g => s = g ∧ On (QuietSince before) g)
    fun g hg => ⟨rfl, hg⟩) fun s => ?_
  by_cases hclosed : s.failClosed = true
  · rw [if_pos hclosed]
    exact (hreject _ _).imp (fun g hg => hg.2) (fun _ _ hd => hd) fun _ hg => hg
  rw [if_neg hclosed]
  by_cases hempty : request.targets = [] ∧ request.ops = []
  · rw [if_pos hempty]
    refine triple_pure ?_
    rintro g ⟨-, hg⟩
    exact ⟨⟨QuietSince.settled hg, fun _ => rfl⟩, fun h => (by cases h)⟩
  rw [if_neg hempty]
  by_cases hepoch : epochId = []
  · rw [if_pos hepoch]
    exact (hreject _ _).imp (fun g hg => hg.2) (fun _ _ hd => hd) fun _ hg => hg
  rw [if_neg hepoch]
  have hopen : ∀ g : EvolutionGovernor C, s = g ∧ On (QuietSince before) g →
      On (OpenQuietSince before) g := by
    rintro g ⟨rfl, hg⟩
    exact ⟨Bool.eq_false_iff.mpr hclosed, hg⟩
  refine Triple.bind ((triple_epochStarted epochId (K := OpenQuietSince before)).imp hopen
    (fun _ _ h => h) fun g hg => .inr hg.openSince) fun started => ?_
  by_cases hstarted : started = false
  · rw [if_pos hstarted]
    exact (hreject _ _).imp (fun g hg => hg.2.2) (fun _ _ hd => hd) fun _ hg => hg
  · rw [if_neg hstarted]
    rintro g ⟨hlive, hg⟩
    have hbefore : Live epochId before :=
      (live_iff_of_extends (hg.2.imp fun _ ht => ht.1)).mpr (hlive (Bool.eq_true_of_not_eq_false hstarted))
    exact (triple_validateLineage world request epochId).imp (fun _ h => h)
      (fun _ _ hd => ⟨hd, fun _ => ⟨hepoch, hbefore⟩⟩) (fun _ h => h) g hg

/-- A governor that is closed after a validation has accepted nothing in it, and recorded no bundle; and
what it accepts is for an epoch that is alive, before and after. -/
theorem triple_validateBundle (world : C.World) (request : MutationRequest P) (epochId : Str) :
    Triple (On (QuietSince before)) (validateBundle world request epochId)
      (fun d g => Decided before d g ∧
        (d.accepted = true → epochId ≠ [] ∧ Live epochId before)) (On (Settled before)) := by
  intro g hg
  have hinternal := triple_validateBundleInternal world request epochId
    { g with envelope := some ⟨max 0 g.entropyBudget, 0, false⟩ } hg
  unfold validateBundle
  rw [run_mk]
  rcases hrun : (validateBundleInternal world request epochId).run
    { g with envelope := some ⟨max 0 g.entropyBudget, 0, false⟩ } with ⟨e | d, g'⟩
  · rw [hrun] at hinternal
    cases e with
    | entropyBudgetExceeded =>
      refine (triple_rejection (admits_settled quiet_governanceDecisionEvent)
        (admits_settled quiet_mutationEvidenceEvent) (fun _ _ h => h) request epochId _ _ zero).imp
        (fun _ h => h) ?_ (fun _ h => h) { g' with envelope := none } hinternal
      rintro d g'' ⟨hd, hrejected⟩
      refine ⟨hd, fun haccepted => ?_⟩
      rw [hrejected] at haccepted
      cases haccepted
    | ledger => exact hinternal
    | raised e => exact hinternal
  · rw [hrun] at hinternal
    have haccepted : (withEntropy g'.envelope d).accepted = d.accepted := by
      unfold withEntropy
      split <;> rfl
    show (On (Settled before) g' ∧ _) ∧ _
    rw [haccepted]
    exact hinternal

theorem keeps_validateBundle_of_closed (world : C.World) (request : MutationRequest P)
    (epochId : Str) :
    Keeps (On (ClosedSince before)) (validateBundle world request epochId) := by
  have hrecorded : ∀ reason replayStatus : String, Keeps (On (ClosedSince before))
      (recorded (C := C) request epochId (rejection reason replayStatus) zero) := fun _ _ =>
    (triple_recorded (admits_closedSince quiet_governanceDecisionEvent)
      (admits_closedSince quiet_mutationEvidenceEvent) request epochId rfl zero).imp (fun _ hg => hg)
      (fun _ _ hg => hg.2) fun _ hg => hg
  have hinternal : Keeps (On (ClosedSince before)) (validateBundleInternal world request epochId) := by
    refine (keeps_chargeEntropy 1).bind fun _ => ?_
    refine Triple.bind (triple_state (Q := fun s g => s = g ∧ On (ClosedSince before) g)
      fun g hg => ⟨rfl, hg⟩) fun s => ?_
    rintro g ⟨rfl, hg⟩
    rw [if_pos hg.1]
    exact hrecorded _ _ s hg
  intro g hg
  have hg' := hinternal { g with envelope := some ⟨max 0 g.entropyBudget, 0, false⟩ } hg
  unfold validateBundle
  rw [run_mk]
  rcases hrun : (validateBundleInternal world request epochId).run
    { g with envelope := some ⟨max 0 g.entropyBudget, 0, false⟩ } with ⟨e | d, g'⟩
  · rw [hrun] at hg'
    cases e with
    | entropyBudgetExceeded => exact hrecorded _ _ { g' with envelope := none } hg'
    | ledger => exact hg'
    | raised e => exact hg'
  · rw [hrun] at hg'
    exact hg'

end validation

/-! ### Runs -/

/-- A governor, and whether it has been closed without a reset since. -/
structure WatchedGovernor (C : Components P) where
  governor : EvolutionGovernor C
  pending : Bool

/-- Whether it is closed without a reset, after a call. -/
def pendingAfter (pending : Bool) (call : GovernorCall C) (answer : Answer P × EvolutionGovernor C) :
    Bool :=
  match call, answer.1 with
  | .enterFailClosed .., _ => true
  | .applyRecoveryEvent .., .recovered true => false
  | .validateBundle .., _ => pending || answer.2.failClosed
  | _, _ => pending

def WatchedGovernor.step (w : WatchedGovernor C) (a : GovernorAction C) : WatchedGovernor C where
  governor := (w.governor.answer a).2
  pending := pendingAfter w.pending a.call (w.governor.answer a)

def Answer.accepts : Answer P → Bool
  | .decision d => d.accepted
  | _ => false

/-- The call is none that accepts or records a bundle between a closing and a reset, and what it accepts
is for an epoch that is alive. -/
structure Lawful (w : WatchedGovernor C) (a : GovernorAction C) : Prop where
  closed : (w.pending = true ∨ (w.step a).pending = true) →
    (w.governor.answer a).1.accepts = false ∧
      Extends NoBundle w.governor.entries (w.step a).governor.entries
  live : (w.governor.answer a).1.accepts = true → ∃ request epochId,
    a.call = .validateBundle request epochId ∧ epochId ≠ [] ∧
      Live epochId w.governor.entries ∧ Live epochId (w.step a).governor.entries

/-- No governor is created anew between a closing and a reset, and no reset ends in a failure of the
ledger then. -/
def Steady (w : WatchedGovernor C) (a : GovernorAction C) : Prop :=
  w.pending = true →
    match a.call with
    | .create _ => False
    | .applyRecoveryEvent _ recoverySignature .constitutionalReset =>
      (str "human-recovery-").isPrefixOf recoverySignature = true → a.faults.headD false = false
    | _ => True

/-- Between a closing and a reset the governor is closed. -/
def KeptClosed (w : WatchedGovernor C) : Prop :=
  w.pending = true → w.governor.failClosed = true

section step

variable {K : Bool → List (Members P.Float) → Prop} {g : EvolutionGovernor C} {α : Type}

theorem on_answered {f : α → Answer P} {m : GovernorMethod C α} (h : Keeps (On K) m) (hg : On K g) :
    On K (answered f m g).2 := by
  have hleft := h.run hg
  unfold answered
  rcases hrun : m.run g with ⟨e | a, g'⟩
  · rw [hrun] at hleft
    exact hleft
  · rw [hrun] at hleft
    exact hleft

theorem accepts_answered {f : α → Answer P} (hf : ∀ a, (f a).accepts = false) (m : GovernorMethod C α)
    (g : EvolutionGovernor C) : (answered f m g).1.accepts = false := by
  unfold answered
  rcases m.run g with ⟨e | a, g'⟩
  · rfl
  · exact hf a

/-- Nothing but entries that are no bundles have been appended. -/
def BundleFree (before : List (Members P.Float)) (_ : Bool) (es : List (Members P.Float)) : Prop :=
  Extends NoBundle before es

theorem admits_bundleFree {before : List (Members P.Float)} {t : Str} (h : NoBundle t) :
    Admits (BundleFree before) t :=
  fun _ _ payload hes => hes.append h payload

theorem ClosedSince.bundleFree {before es : List (Members P.Float)} {f : Bool}
    (h : ClosedSince before f es) : Extends NoBundle before es :=
  h.2.imp fun _ ht => ht.2

theorem lawful_of_quiet {w : WatchedGovernor C} {a : GovernorAction C}
    (haccepts : (w.governor.answer a).1.accepts = false)
    (hentries : Extends NoBundle w.governor.entries (w.step a).governor.entries) : Lawful w a where
  closed _ := ⟨haccepts, hentries⟩
  live h := by
    rw [haccepts] at h
    cases h

theorem keptClosed_enterFailClosed {w : WatchedGovernor C} {world : C.World} {faults : List Bool}
    (reason epochId : Str) (tier : RecoveryTier) :
    KeptClosed (w.step ⟨.enterFailClosed reason epochId tier, world, faults⟩) ∧
      Lawful w ⟨.enterFailClosed reason epochId tier, world, faults⟩ := by
  have hclosed : On (ClosedSince w.governor.entries)
      (w.step ⟨.enterFailClosed reason epochId tier, world, faults⟩).governor := by
    show On _ (answered _ _ _).2
    have htriple := @triple_enterFailClosed P C w.governor.entries reason epochId tier
      { w.governor with faults := faults } (extends_refl Quiet _)
    unfold answered
    rcases hrun : (enterFailClosed (C := C) reason epochId tier).run
      { w.governor with faults := faults } with ⟨e | _, g'⟩
    · rw [hrun] at htriple
      exact htriple
    · rw [hrun] at htriple
      exact htriple
  exact ⟨fun _ => hclosed.1, lawful_of_quiet (accepts_answered (fun _ => rfl) _ _) hclosed.bundleFree⟩

theorem keptClosed_markEpoch {w : WatchedGovernor C} {a : GovernorAction C} {eventType ts epochId : Str}
    {metadata : Members P.Float} (hw : KeptClosed w) (htype : NoBundle eventType)
    (hanswer : w.governor.answer a = answered (fun _ => .none) (markEpoch eventType ts epochId metadata)
      { w.governor with faults := a.faults })
    (hpending : (w.step a).pending = w.pending) : KeptClosed (w.step a) ∧ Lawful w a := by
  have hkeeps : ∀ K : Bool → List (Members P.Float) → Prop, Admits K eventType →
      On K w.governor → On K (w.step a).governor := by
    intro K hK hon
    show On K (w.governor.answer a).2
    rw [hanswer]
    exact on_answered (keeps_appendEvent hK _) hon
  constructor
  · intro h
    rw [hpending] at h
    exact hkeeps (fun f _ => f = true) (fun _ _ _ h => h) (hw h)
  · refine lawful_of_quiet ?_ (hkeeps (BundleFree w.governor.entries) (admits_bundleFree htype)
      (extends_refl _ _))
    rw [hanswer]
    exact accepts_answered (fun _ => rfl) _ _

theorem run_appendEvent (eventType : Str) (payload : Members P.Float) (g : EvolutionGovernor C) :
    ∃ g' : EvolutionGovernor C, (appendEvent eventType payload).run g =
        (if g.faults.headD false then .error .ledger else .ok (), g') ∧ g'.failClosed = g.failClosed := by
  unfold appendEvent
  rw [run_bind]
  unfold access
  rw [run_mk]
  cases g.faults.headD false with
  | true => exact ⟨_, rfl, rfl⟩
  | false => exact ⟨_, rfl, rfl⟩

theorem run_applyRecoveryEvent {epochId recoverySignature : Str} {tier : RecoveryTier}
    (hsigned : ¬ (str "human-recovery-").isPrefixOf recoverySignature = false) (g : EvolutionGovernor C) :
    ∃ g' : EvolutionGovernor C, (applyRecoveryEvent epochId recoverySignature tier).run g =
        (if g.faults.headD false then .error .ledger else .ok (tier = .constitutionalReset), g') ∧
      g'.failClosed = if tier = .constitutionalReset then false else g.failClosed := by
  unfold applyRecoveryEvent
  rw [if_neg hsigned]
  dsimp only
  rw [run_bind_of_ok (run_change _ _), run_bind]
  obtain ⟨g', hrun, hclosed⟩ := run_appendEvent governanceDecisionEvent
    [(.str epochIdKey, .str epochId),
      (.str (str "recovery_signature"), .str recoverySignature),
      (.str (str "requested_tier"), .str tier.value),
      (.str (str "fail_closed"), .bool !(tier = .constitutionalReset : Bool)),
      (.str (str "decision"), .str (str "recovery_requested")),
      (.str (str "evidence"), .dict [(.str (str "signature"), .str recoverySignature)])]
    { g with
      failClosed := if (tier = .constitutionalReset : Bool) then false else g.failClosed
      failClosedReason := if (tier = .constitutionalReset : Bool) then [] else g.failClosedReason
      recoveryTier := tier }
  rw [hrun]
  refine ⟨g', ?_, hclosed.trans (if_congr decide_eq_true_iff rfl rfl)⟩
  dsimp only
  cases g.faults.headD false with
  | true => rfl
  | false => rfl

theorem keptClosed_applyRecoveryEvent {w : WatchedGovernor C} {world : C.World} {faults : List Bool}
    {epochId recoverySignature : Str} {tier : RecoveryTier} (hw : KeptClosed w)
    (hsteady : Steady w ⟨.applyRecoveryEvent epochId recoverySignature tier, world, faults⟩) :
    KeptClosed (w.step ⟨.applyRecoveryEvent epochId recoverySignature tier, world, faults⟩) ∧
      Lawful w ⟨.applyRecoveryEvent epochId recoverySignature tier, world, faults⟩ := by
  have hentries : On (BundleFree w.governor.entries)
      (w.step ⟨.applyRecoveryEvent epochId recoverySignature tier, world, faults⟩).governor := by
    refine on_answered (g := { w.governor with faults := faults }) ?_ (extends_refl _ _)
    unfold applyRecoveryEvent
    by_cases hprefix : (str "human-recovery-").isPrefixOf recoverySignature = false
    · rw [if_pos hprefix]
      exact keeps_pure
    · rw [if_neg hprefix]
      exact Keeps.bind (keeps_change fun _ hg => hg) fun _ =>
        (keeps_appendEvent (admits_bundleFree quiet_governanceDecisionEvent.2) _).bind fun _ => keeps_pure
  refine ⟨?_, lawful_of_quiet (accepts_answered (fun _ => rfl) _ _) hentries⟩
  by_cases hsigned : (str "human-recovery-").isPrefixOf recoverySignature = false
  · have hstep : w.step ⟨.applyRecoveryEvent epochId recoverySignature tier, world, faults⟩ =
        ⟨{ w.governor with faults := faults }, w.pending⟩ := by
      unfold WatchedGovernor.step EvolutionGovernor.answer
      dsimp only
      unfold applyRecoveryEvent
      rw [if_pos hsigned]
      rfl
    rw [hstep]
    exact hw
  obtain ⟨g', hrun, hclosed⟩ := @run_applyRecoveryEvent P C epochId recoverySignature tier hsigned
    { w.governor with faults := faults }
  have hanswer : w.governor.answer ⟨.applyRecoveryEvent epochId recoverySignature tier, world, faults⟩ =
      (if faults.headD false then .raised .ledger else .recovered (tier = .constitutionalReset), g') := by
    show answered _ _ _ = _
    unfold answered
    rw [hrun]
    cases faults.headD false with
    | true => rfl
    | false => rfl
  intro hpending
  have hgovernor : (w.step ⟨.applyRecoveryEvent epochId recoverySignature tier, world, faults⟩).governor =
      g' := congrArg Prod.snd hanswer
  rw [hgovernor, hclosed]
  have hafter : pendingAfter w.pending (.applyRecoveryEvent epochId recoverySignature tier : GovernorCall C)
      (if faults.headD false then .raised .ledger else .recovered (tier = .constitutionalReset), g') = true := by
    rw [← hanswer]
    exact hpending
  by_cases hreset : tier = .constitutionalReset
  · -- A reset that the ledger does not fail is returned, so that nothing is pending.
    by_cases hfault : faults.headD false = true
    · rw [if_pos hfault] at hafter
      subst hreset
      have hnone := hsteady hafter (Bool.eq_true_of_not_eq_false hsigned)
      rw [hfault] at hnone
      cases hnone
    · rw [if_neg hfault, hreset] at hafter
      cases hafter
  · rw [if_neg hreset]
    apply hw
    by_cases hfault : faults.headD false = true
    · rw [if_pos hfault] at hafter
      exact hafter
    · rw [if_neg hfault, decide_eq_false hreset] at hafter
      exact hafter

theorem keptClosed_validateBundle {w : WatchedGovernor C} {world : C.World} {faults : List Bool}
    {request : MutationRequest P} {epochId : Str} (hw : KeptClosed w) :
    KeptClosed (w.step ⟨.validateBundle request epochId, world, faults⟩) ∧
      Lawful w ⟨.validateBundle request epochId, world, faults⟩ := by
  have hclosed : w.pending = true →
      (w.step ⟨.validateBundle request epochId, world, faults⟩).governor.failClosed = true := by
    intro hpending
    have hkept : On (ClosedSince w.governor.entries)
        (w.step ⟨.validateBundle request epochId, world, faults⟩).governor :=
      on_answered (g := { w.governor with faults := faults })
        (keeps_validateBundle_of_closed world request epochId) ⟨hw hpending, extends_refl _ _⟩
    exact hkept.1
  have hpending : (w.step ⟨.validateBundle request epochId, world, faults⟩).pending = true →
      (w.step ⟨.validateBundle request epochId, world, faults⟩).governor.failClosed = true := by
    intro h
    rcases Bool.or_eq_true_iff.mp h with h | h
    · exact hclosed h
    · exact h
  have htriple := @triple_validateBundle P C w.governor.entries world request epochId
    { w.governor with faults := faults } (extends_refl Quiet _)
  have hanswer : w.governor.answer ⟨.validateBundle request epochId, world, faults⟩ =
      answered .decision (validateBundle world request epochId) { w.governor with faults := faults } := rfl
  unfold answered at hanswer
  rcases hrun : (validateBundle world request epochId).run { w.governor with faults := faults } with
    ⟨e | d, g'⟩
  · rw [hrun] at htriple hanswer
    have hgovernor : (w.step ⟨.validateBundle request epochId, world, faults⟩).governor = g' :=
      congrArg Prod.snd hanswer
    refine ⟨hpending, ⟨fun h => ⟨by rw [hanswer]; rfl, ?_⟩, fun h => ?_⟩⟩
    · have hafter := hpending (h.elim (fun h => Bool.or_eq_true_iff.mpr (.inl h)) id)
      rw [hgovernor] at hafter ⊢
      rcases htriple with hsettled | hsettled
      · exact hsettled.bundleFree
      · rw [hsettled.1] at hafter
        cases hafter
    · rw [hanswer] at h
      cases h
  · rw [hrun] at htriple hanswer
    have hgovernor : (w.step ⟨.validateBundle request epochId, world, faults⟩).governor = g' :=
      congrArg Prod.snd hanswer
    have haccepts : (w.governor.answer ⟨.validateBundle request epochId, world, faults⟩).1.accepts =
        d.accepted := by rw [hanswer]; rfl
    obtain ⟨⟨hsettled, hrejected⟩, hlive⟩ := htriple
    refine ⟨hpending, ⟨fun h => ?_, fun h => ?_⟩⟩
    · have hafter := hpending (h.elim (fun h => Bool.or_eq_true_iff.mpr (.inl h)) id)
      rw [hgovernor] at hafter ⊢
      refine ⟨haccepts.trans (hrejected hafter), ?_⟩
      rcases hsettled with hsettled | hsettled
      · exact hsettled.bundleFree
      · rw [hsettled.1] at hafter
        cases hafter
    · rw [haccepts] at h
      obtain ⟨hepoch, hbefore⟩ := hlive h
      refine ⟨request, epochId, rfl, hepoch, hbefore, ?_⟩
      rw [hgovernor]
      rcases hsettled with hsettled | hsettled
      · exact (live_iff_of_extends (hsettled.2.imp fun _ ht => ht.1)).mp hbefore
      · exact (live_iff_of_extends hsettled.2).mp hbefore

theorem keptClosed_step {w : WatchedGovernor C} {a : GovernorAction C} (hw : KeptClosed w)
    (hsteady : Steady w a) : KeptClosed (w.step a) ∧ Lawful w a := by
  obtain ⟨call, world, faults⟩ := a
  cases call with
  | enterFailClosed reason epochId tier => exact keptClosed_enterFailClosed reason epochId tier
  | applyRecoveryEvent epochId recoverySignature tier =>
    exact keptClosed_applyRecoveryEvent hw hsteady
  | markEpochStart epochId metadata =>
    exact keptClosed_markEpoch hw (by unfold NoBundle; decide) rfl rfl
  | markEpochEnd epochId metadata =>
    exact keptClosed_markEpoch hw (by unfold NoBundle; decide) rfl rfl
  | validateBundle request epochId => exact keptClosed_validateBundle hw
  | create c =>
    have hopen : w.pending = false := Bool.eq_false_iff.mpr fun h => hsteady h
    refine ⟨fun h => ?_, lawful_of_quiet rfl (extends_refl _ _)⟩
    have hafter : (w.step ⟨.create c, world, faults⟩).pending = w.pending := rfl
    rw [hafter, hopen] at h
    cases h

end step

def watched (c : Config C) (entries : List (Members P.Float)) : WatchedGovernor C :=
  ⟨newGovernor c entries, false⟩

/-- Every check passes, and the metrics change nothing. -/
def permissive : Components reference where
  World := Unit
  Manager := Unit
  now _ := str "t"
  signatureValid _ _ := true
  lineageContinuity _ _ := .ok (true, str "lineage_verified")
  impact _ := zero
  less _ _ := false
  gain x := x
  evaluate m r :=
    ({ mutationCost := zero
       fitnessGain := r.fitnessGain
       roi := zero
       accepted := true
       reason := str "accepted"
       threshold := zero
       explorationRate := zero }, m)
  feedback _ _ m b := ⟨m, none, b⟩

def plainConfig : Config permissive where
  maxImpact := zero
  replayMode := str "off"
  deterministic := false
  entropyBudget := 100
  manager := ()

def plainRequest : MutationRequest reference where
  agentId := str "a"
  generationTs := str "t"
  intent := str "i"
  ops := [[]]
  signature := str "s"
  nonce := str "n"
  targets := []
  bundleId := str "b"
  randomSeed := 0
  capabilityScopes := []
  authorityLevel := str "low-impact"

/-- A call whose accesses to the ledger all succeed. -/
def action (call : GovernorCall permissive) : GovernorAction permissive := ⟨call, (), []⟩

/-- A governor is closed in an epoch that has started, and made anew. -/
def closedAndCreated : List (GovernorAction permissive) :=
  [action (.markEpochStart (str "e") []), action (.enterFailClosed (str "r") (str "e") .soft),
    action (.create plainConfig)]

end Adaad.Evolution.Governor
