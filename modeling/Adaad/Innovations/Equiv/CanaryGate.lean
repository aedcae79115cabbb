import Adaad.Innovations.CanaryMutationDeployment
import Adaad.Py.Reference
import Adaad.Run

/-!
# The gate of canary deployments

Only an override looks at the status of a canary.  A canary that was rolled back can get another mirror
score and be closed again, and one that was promoted can get another score, be closed again or be opened
again.  What the gate promises of a call holds exactly where the call does none of that
(`meets_gated_iff`).
-/

namespace Adaad.Innovations.Canary

open Py

variable {P : Platform}

/-! ### What the gate promises -/

def Engine.statusOf (e : Engine P) (canaryId : Str) : Option CanaryStatus :=
  (e.deployments.lookup canaryId).map CanaryDeployment.status

/-- The canary has a `ROLLED_BACK` event. -/
def Engine.HasRolledBack (e : Engine P) (canaryId : Str) : Prop :=
  ∃ evt ∈ e.events, evt.canaryId = canaryId ∧ evt.eventType = CanaryEventType.rolledBack.value

/-- The call is `promote_failed_canary` with `human_auth=True`, on this canary. -/
def Call.Overrides (c : Call P) (canaryId : Str) : Prop :=
  ∃ rationale timestamp now, c = .promoteFailedCanary canaryId true rationale timestamp now

/-- A canary that is promoted without an override has a mirror score of at least its threshold. -/
def Sound (e : Engine P) : Prop :=
  ∀ canaryId dep, e.deployments.lookup canaryId = some dep → dep.status = .promoted →
    dep.human0Override = false → dep.mirrorPassed = true

/-- A canary with a `ROLLED_BACK` event becomes promoted by an override only, a promoted one stays so,
and one that is promoted without an override has passed. -/
structure Gated (e : Engine P) (c : Call P) : Prop where
  rolledBack : ∀ canaryId, e.HasRolledBack canaryId → e.statusOf canaryId ≠ some .promoted →
    (e.call c).statusOf canaryId = some .promoted → c.Overrides canaryId
  promoted : ∀ canaryId, e.statusOf canaryId = some .promoted →
    (e.call c).statusOf canaryId = some .promoted
  passed : Sound (e.call c)

/-- The call does not touch a promoted canary but to close it once more with a score that passes, and
promotes none that was rolled back. -/
def Admitted (e : Engine P) : Call P → Prop
  | .openCanary call => ∀ canaryId,
      makeCanaryId P call.mutationId (timestampOr call.timestamp call.now) = .ok canaryId →
        e.statusOf canaryId ≠ some .promoted
  | .recordMirrorResult canaryId _ _ _ => e.statusOf canaryId ≠ some .promoted
  | .closeCanary canaryId _ _ => ∀ dep, e.deployments.lookup canaryId = some dep →
      dep.mirrorScore ≠ none →
        (dep.mirrorPassed = true → e.HasRolledBack canaryId → dep.status = .promoted) ∧
          (dep.mirrorPassed = false → dep.status ≠ .promoted)
  | .recordSample _ _ _ _ => True
  | .promoteFailedCanary _ _ _ _ _ => True

/-! ### One deployment changes -/

section change

variable {e : Engine P} {c : Call P}

theorem gated_of_unchanged (hs : Sound e) (h : (e.call c).deployments = e.deployments) :
    Gated e c := by
  have hstatus : ∀ canaryId, (e.call c).statusOf canaryId = e.statusOf canaryId := fun canaryId => by
    unfold Engine.statusOf
    rw [h]
  refine ⟨fun canaryId _ hne hpromoted => ?_, fun canaryId hpromoted => ?_, ?_⟩
  · rw [hstatus] at hpromoted
    exact absurd hpromoted hne
  · rw [hstatus]
    exact hpromoted
  · intro canaryId dep hlookup
    rw [h] at hlookup
    exact hs canaryId dep hlookup

theorem statusOf_of_set {canaryId : Str} {dep : CanaryDeployment P}
    (h : (e.call c).deployments = Assoc.set e.deployments canaryId dep) (k : Str) :
    (e.call c).statusOf k = if k = canaryId then some dep.status else e.statusOf k := by
  unfold Engine.statusOf
  rw [h, Assoc.lookup_set]
  split_ifs <;> rfl

theorem gated_iff_of_set (hs : Sound e) (canaryId : Str) (dep : CanaryDeployment P)
    (h : (e.call c).deployments = Assoc.set e.deployments canaryId dep) :
    Gated e c ↔
      (e.HasRolledBack canaryId → e.statusOf canaryId ≠ some .promoted →
        dep.status = .promoted → c.Overrides canaryId) ∧
      (e.statusOf canaryId = some .promoted → dep.status = .promoted) ∧
      (dep.status = .promoted → dep.human0Override = false → dep.mirrorPassed = true) := by
  constructor
  · intro hgated
    refine ⟨fun hrolled hne hpromoted => ?_, fun hpromoted => ?_, ?_⟩
    · refine hgated.rolledBack canaryId hrolled hne ?_
      rw [statusOf_of_set h, if_pos rfl, hpromoted]
    · have := hgated.promoted canaryId hpromoted
      rw [statusOf_of_set h, if_pos rfl] at this
      exact Option.some.inj this
    · refine hgated.passed canaryId dep ?_
      rw [h, Assoc.lookup_set, if_pos rfl]
  · rintro ⟨hrolled, hpromoted, hpassed⟩
    refine ⟨fun k hk hne hstatus => ?_, fun k hk => ?_, fun k dep' hk => ?_⟩
    · rw [statusOf_of_set h] at hstatus
      split_ifs at hstatus with heq
      · subst heq
        exact hrolled hk hne (Option.some.inj hstatus)
      · exact absurd hstatus hne
    · rw [statusOf_of_set h]
      split_ifs with heq
      · subst heq
        exact congrArg some (hpromoted hk)
      · exact hk
    · rw [h, Assoc.lookup_set] at hk
      split_ifs at hk with heq
      · obtain rfl := Option.some.inj hk
        exact hpassed
      · exact hs k dep' hk

end change

/-! ### The calls -/

section calls

variable {e : Engine P}

theorem get_eq (e : Engine P) (canaryId : Str) :
    e.get canaryId = (e.deployments.lookup canaryId).elim (.error (.unknown canaryId)) .ok := by
  unfold Engine.get
  cases e.deployments.lookup canaryId <;> rfl

theorem statusOf_eq {canaryId : Str} {dep : CanaryDeployment P}
    (h : e.deployments.lookup canaryId = some dep) : e.statusOf canaryId = some dep.status := by
  unfold Engine.statusOf
  rw [h]
  rfl

theorem gated_openCanary_iff (hs : Sound e) (call : OpenCall P) :
    Gated e (.openCanary call) ↔ Admitted e (.openCanary call) := by
  cases hid : makeCanaryId P call.mutationId (timestampOr call.timestamp call.now) with
  | error x =>
    refine iff_of_true (gated_of_unchanged hs ?_) fun canaryId h => ?_
    · show (e.openCanary call).2.deployments = _
      unfold Engine.openCanary
      dsimp only
      rw [hid]
    · rw [hid] at h
      cases h
  | ok canaryId =>
    rw [gated_iff_of_set hs canaryId _ (by
      show (e.openCanary call).2.deployments = _
      unfold Engine.openCanary
      dsimp only
      rw [hid]
      rfl)]
    constructor
    · rintro ⟨-, hpromoted, -⟩ k hk hstatus
      rw [hid] at hk
      obtain rfl := Except.ok.inj hk
      cases hpromoted hstatus
    · intro h
      refine ⟨fun _ _ hstatus => ?_, fun hstatus => absurd hstatus (h canaryId hid), fun hstatus => ?_⟩
      · cases hstatus
      · cases hstatus

theorem gated_recordSample (hs : Sound e) (canaryId : Str) (success : Bool) (timestamp : Str)
    (now : Timestamp) : Gated e (.recordSample canaryId success timestamp now) := by
  cases hlookup : e.deployments.lookup canaryId with
  | none =>
    refine gated_of_unchanged hs ?_
    show (e.recordSample canaryId success timestamp now).2.deployments = _
    unfold Engine.recordSample
    rw [get_eq, hlookup]
    rfl
  | some dep =>
    rw [gated_iff_of_set hs canaryId (dep.sampled success) (by
      show (e.recordSample canaryId success timestamp now).2.deployments = _
      unfold Engine.recordSample
      rw [get_eq, hlookup]
      rfl)]
    refine ⟨fun _ hne hstatus => ?_, fun hstatus => ?_, hs canaryId dep hlookup⟩
    · rw [statusOf_eq hlookup] at hne
      exact absurd (congrArg some hstatus) hne
    · rw [statusOf_eq hlookup] at hstatus
      exact Option.some.inj hstatus

theorem gated_recordMirrorResult_iff (hs : Sound e) (canaryId : Str) (mirrorScore : Number P)
    (timestamp : Str) (now : Timestamp) :
    Gated e (.recordMirrorResult canaryId mirrorScore timestamp now) ↔
      Admitted e (.recordMirrorResult canaryId mirrorScore timestamp now) := by
  cases hlookup : e.deployments.lookup canaryId with
  | none =>
    refine iff_of_true (gated_of_unchanged hs ?_) ?_
    · show (e.recordMirrorResult canaryId mirrorScore timestamp now).2.deployments = _
      unfold Engine.recordMirrorResult
      rw [get_eq, hlookup]
      rfl
    · show e.statusOf canaryId ≠ _
      unfold Engine.statusOf
      rw [hlookup]
      exact (Option.some_ne_none _).symm
  | some dep =>
    rw [gated_iff_of_set hs canaryId (dep.mirrored mirrorScore) (by
      show (e.recordMirrorResult canaryId mirrorScore timestamp now).2.deployments = _
      unfold Engine.recordMirrorResult
      rw [get_eq, hlookup]
      rfl)]
    constructor
    · rintro ⟨-, hpromoted, -⟩ hstatus
      cases hpromoted hstatus
    · intro h
      refine ⟨fun _ _ hstatus => ?_, fun hstatus => absurd hstatus h, fun hstatus => ?_⟩
      · cases hstatus
      · cases hstatus

theorem gated_closeCanary_iff (hs : Sound e) (canaryId timestamp : Str) (now : Timestamp) :
    Gated e (.closeCanary canaryId timestamp now) ↔ Admitted e (.closeCanary canaryId timestamp now) := by
  cases hlookup : e.deployments.lookup canaryId with
  | none =>
    refine iff_of_true (gated_of_unchanged hs ?_) fun dep h => ?_
    · show (e.closeCanary canaryId timestamp now).2.deployments = _
      unfold Engine.closeCanary
      rw [get_eq, hlookup]
      rfl
    · rw [hlookup] at h
      cases h
  | some dep =>
    have hstatusOf := statusOf_eq hlookup
    cases hscore : dep.mirrorScore with
    | none =>
      refine iff_of_true (gated_of_unchanged hs ?_) fun dep' h hne => ?_
      · show (e.closeCanary canaryId timestamp now).2.deployments = _
        unfold Engine.closeCanary
        rw [get_eq, hlookup]
        dsimp only [Option.elim]
        rw [hscore]
      · rw [hlookup] at h
        obtain rfl := Option.some.inj h
        exact absurd hscore hne
    | some score =>
      have hadmitted : Admitted e (.closeCanary canaryId timestamp now) ↔
          (dep.mirrorPassed = true → e.HasRolledBack canaryId → dep.status = .promoted) ∧
            (dep.mirrorPassed = false → dep.status ≠ .promoted) := by
        constructor
        · exact fun h => h dep hlookup (by rw [hscore]; exact Option.some_ne_none score)
        · intro h dep' hdep' _
          rw [hlookup] at hdep'
          obtain rfl := Option.some.inj hdep'
          exact h
      rw [hadmitted]
      cases hpassed : dep.mirrorPassed with
      | true =>
        rw [gated_iff_of_set hs canaryId
          (dep.closed .promoted (timestampOr timestamp now)) (by
            show (e.closeCanary canaryId timestamp now).2.deployments = _
            unfold Engine.closeCanary
            rw [get_eq, hlookup]
            dsimp only [Option.elim]
            rw [hscore]
            dsimp only
            rw [if_pos hpassed]
            rfl), hstatusOf]
        constructor
        · rintro ⟨hrolled, -, -⟩
          refine ⟨fun _ h => ?_, fun h => Bool.noConfusion h⟩
          by_contra hne
          obtain ⟨rationale, timestamp', now', hc⟩ :=
            hrolled h (fun heq => hne (Option.some.inj heq)) rfl
          cases hc
        · rintro ⟨hpromoted, -⟩
          refine ⟨fun h hne _ => ?_, fun _ => rfl, fun _ _ => hpassed⟩
          exact absurd (congrArg some (hpromoted rfl h)) hne
      | false =>
        rw [gated_iff_of_set hs canaryId
          (dep.closed .rolledBack (timestampOr timestamp now)) (by
            show (e.closeCanary canaryId timestamp now).2.deployments = _
            unfold Engine.closeCanary
            rw [get_eq, hlookup]
            dsimp only [Option.elim]
            rw [hscore]
            dsimp only
            rw [if_neg (by rw [hpassed]; exact Bool.false_ne_true)]
            rfl), hstatusOf]
        constructor
        · rintro ⟨-, hpromoted, -⟩
          refine ⟨fun h => Bool.noConfusion h, fun _ h => ?_⟩
          cases hpromoted (congrArg some h)
        · rintro ⟨-, hne⟩
          refine ⟨fun _ _ h => ?_, fun h => absurd (Option.some.inj h) (hne rfl), fun h => ?_⟩
          · cases h
          · cases h

theorem gated_promoteFailedCanary (hs : Sound e) (canaryId : Str) (humanAuth : Bool)
    (rationale timestamp : Str) (now : Timestamp) :
    Gated e (.promoteFailedCanary canaryId humanAuth rationale timestamp now) := by
  cases humanAuth with
  | false => exact gated_of_unchanged hs rfl
  | true =>
    cases hlookup : e.deployments.lookup canaryId with
    | none =>
      refine gated_of_unchanged hs ?_
      show (e.promoteFailedCanary canaryId true rationale timestamp now).2.deployments = _
      unfold Engine.promoteFailedCanary
      rw [if_neg (by decide), get_eq, hlookup]
      rfl
    | some dep =>
      by_cases hstatus : dep.status = .rolledBack
      · rw [gated_iff_of_set hs canaryId dep.overridden (by
          show (e.promoteFailedCanary canaryId true rationale timestamp now).2.deployments = _
          unfold Engine.promoteFailedCanary
          rw [if_neg (by decide), get_eq, hlookup]
          dsimp only [Option.elim]
          rw [if_neg (not_not.mpr hstatus)]
          rfl)]
        refine ⟨fun _ _ _ => ⟨rationale, timestamp, now, rfl⟩, fun _ => rfl, fun _ h => ?_⟩
        cases h
      · refine gated_of_unchanged hs ?_
        show (e.promoteFailedCanary canaryId true rationale timestamp now).2.deployments = _
        unfold Engine.promoteFailedCanary
        rw [if_neg (by decide), get_eq, hlookup]
        dsimp only [Option.elim]
        rw [if_pos hstatus]

theorem gated_iff_admitted (hs : Sound e) (c : Call P) : Gated e c ↔ Admitted e c := by
  cases c with
  | openCanary call => exact gated_openCanary_iff hs call
  | recordSample canaryId success timestamp now =>
    exact iff_of_true (gated_recordSample hs canaryId success timestamp now) trivial
  | recordMirrorResult canaryId mirrorScore timestamp now =>
    exact gated_recordMirrorResult_iff hs canaryId mirrorScore timestamp now
  | closeCanary canaryId timestamp now => exact gated_closeCanary_iff hs canaryId timestamp now
  | promoteFailedCanary canaryId humanAuth rationale timestamp now =>
    exact iff_of_true (gated_promoteFailedCanary hs canaryId humanAuth rationale timestamp now) trivial

end calls

/-! ### Runs -/

theorem sound_new (canarySlice mirrorThreshold : Number P) :
    Sound (Engine.new canarySlice mirrorThreshold) := by
  intro canaryId dep h
  cases h

/-- The calls of a run keep what the gate promises exactly when they are all admitted. -/
theorem meets_gated_iff (canarySlice mirrorThreshold : Number P) (calls : List (Call P)) :
    Run.Meets Engine.call Gated (Engine.new canarySlice mirrorThreshold) calls ↔
      Run.Meets Engine.call Admitted (Engine.new canarySlice mirrorThreshold) calls :=
  Run.meets_congr_of_kept (fun _ _ _ h => h.passed) (fun _ c hs => gated_iff_admitted hs c)
    (sound_new canarySlice mirrorThreshold)

/-! ### A canary that is promoted after its rollback -/

def noon : Timestamp := ⟨str "2026-01-01T12:00:00+00:00", by decide⟩

def lateId : Str :=
  (makeCanaryId reference (str "MUT-1") noon.text).toOption.getD []

/-- A canary fails, is rolled back, gets a score that passes, and is closed again. -/
def lateScore : List (Call reference) :=
  [.openCanary ⟨str "MUT-1", 0, none, none, [], noon⟩, .recordMirrorResult lateId (.inl 0) [] noon,
    .closeCanary lateId [] noon, .recordMirrorResult lateId (.inl 1) [] noon,
    .closeCanary lateId [] noon]

/-- A failed canary can be promoted without an override. -/
theorem not_meets_gated : ¬ ∀ (canarySlice mirrorThreshold : Number reference)
    (calls : List (Call reference)),
    Run.Meets Engine.call Gated (Engine.new canarySlice mirrorThreshold) calls := by
  intro h
  obtain ⟨-, -, -, -, hclose, -⟩ := h (.inl 1) (.inl 1) lateScore
  obtain ⟨rationale, timestamp, now, hc⟩ := hclose.rolledBack lateId (by
    unfold Engine.HasRolledBack
    decide +kernel) (by decide +kernel) (by decide +kernel)
  cases hc

end Adaad.Innovations.Canary
