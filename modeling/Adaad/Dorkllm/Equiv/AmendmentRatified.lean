import Adaad.Dorkllm.Equiv.AmendmentStages

/-!
# Ratified amendments

A `RATIFIED` record is signed and comes after the records of the stages before it, in any run; it
has the hash of the text that the amendment was proposed for exactly where no object is ratified
that `propose` returned for content that was in the ledger (`ratifiedSound_run_iff`).
-/

namespace Adaad.SelfAmendment

open Py Run

variable {P : Platform} {rt : Runtime P} {w w' : World P} {record : Record P}

/-! ### What a ratified record has to be -/

/-- The stage that a record gives to the amendment. -/
def stageOf (amendmentId : Str) (record : Record P) : Option Str :=
  match get record amendmentIdKey, get record stageKey with
  | some (.str id), some (.str stage) => if id = amendmentId then some stage else none
  | _, _ => none

/-- The stages of an amendment in the order of the records. -/
def stagesOf (ledger : List (Record P)) (amendmentId : Str) : List Str :=
  ledger.filterMap (stageOf amendmentId)

/-- The stages that come before, with the stage itself. -/
def path : AmendmentStage → List Str
  | .proposed => []
  | .validated => [AmendmentStage.validated.value]
  | .simulated => [AmendmentStage.validated.value, AmendmentStage.simulated.value]
  | .pendingH0 => [AmendmentStage.validated.value, AmendmentStage.simulated.value,
      AmendmentStage.pendingH0.value]
  | .ratified => []
  | .rejected => []

/-- The record has a signature that is not blank and the hash of the text of the amendment, and it
comes after the records of the stages before, in their order. -/
def SoundRecord (currentTexts : List (Str × Str)) (before : List (Record P)) (record : Record P) :
    Prop :=
  ∃ amendmentId signature currentText hash,
    get record amendmentIdKey = some (.str amendmentId) ∧
      get record human0SignatureKey = some (.str signature) ∧ strip signature ≠ [] ∧
      currentTexts.lookup amendmentId = some currentText ∧
      revertHash P currentText = .ok hash ∧ get record revertHashKey = some (.str hash) ∧
      (path .pendingH0).Sublist (stagesOf before amendmentId)

/-- Every `RATIFIED` record of the ledger is sound. -/
def RatifiedSound (w : World P) : Prop :=
  ∀ before record, before ++ [record] <+: w.ledger →
    get record stageKey = some (.str AmendmentStage.ratified.value) →
      SoundRecord w.currentTexts before record

/-- A call that ratifies does it with an object that has a hash to revert to. -/
def Reverting (w : World P) : Call P → Prop
  | .ratify _ number human0Signature => ∀ e p, w.object number = some (e, p) →
      strip human0Signature ≠ [] → p.stage = .pendingH0 → p.revertHash ≠ none
  | _ => True

/-! ### Stages -/

theorem stageOf_of_recordOf {amendmentId : Str} {stage : AmendmentStage}
    (h : RecordOf record amendmentId stage) : stageOf amendmentId record = some stage.value := by
  unfold stageOf
  rw [h.1, h.2]
  exact if_pos rfl

theorem stagesOf_sublist (ledger : List (Record P)) (record : Record P) (amendmentId : Str) :
    (stagesOf ledger amendmentId).Sublist (stagesOf (ledger ++ [record]) amendmentId) := by
  unfold stagesOf
  rw [List.filterMap_append]
  exact List.sublist_append_left _ _

theorem stagesOf_concat {amendmentId : Str} {stage : AmendmentStage} (ledger : List (Record P))
    (h : RecordOf record amendmentId stage) :
    stagesOf (ledger ++ [record]) amendmentId = stagesOf ledger amendmentId ++ [stage.value] := by
  unfold stagesOf
  rw [List.filterMap_append, List.filterMap_cons_some (stageOf_of_recordOf h), List.filterMap_nil]

theorem path_target {e : Engine P} {p : AmendmentProposal P} {call : Call P}
    {next : AmendmentStage} (htarget : target rt e p call = some next) :
    (path next).Sublist (path p.stage ++ [next.value]) := by
  have hnil : ∀ l : List Str, ([] : List Str).Sublist l := List.nil_sublist
  cases call with
  | openEngine hardRegistry => exact nomatch htarget
  | propose env r => exact nomatch htarget
  | validate env n score existing =>
    obtain rfl := Option.some.inj htarget
    split_ifs
    · exact List.sublist_append_right _ _
    · exact hnil _
  | simulate env n r =>
    rw [target, Option.ite_none_right_eq_some] at htarget
    obtain ⟨hp, htarget⟩ := htarget
    obtain rfl := Option.some.inj htarget
    split_ifs
    · rw [hp]
      exact List.Sublist.refl _
    · exact hnil _
  | queueForRatification env n =>
    rw [target, Option.ite_none_right_eq_some] at htarget
    obtain ⟨hp, htarget⟩ := htarget
    obtain rfl := Option.some.inj htarget
    rw [hp]
    exact List.Sublist.refl _
  | ratify env n human0Signature =>
    rw [target, Option.ite_none_right_eq_some] at htarget
    obtain rfl := Option.some.inj htarget.2
    exact hnil _
  | reject env n reason =>
    obtain rfl := Option.some.inj htarget
    exact hnil _

theorem ratify_of_target {e : Engine P} {p : AmendmentProposal P} {call : Call P}
    (htarget : target rt e p call = some .ratified) :
    ∃ env number human0Signature, call = .ratify env number human0Signature ∧
      strip human0Signature ≠ [] ∧ p.stage = .pendingH0 := by
  cases call with
  | openEngine hardRegistry => cases htarget
  | propose env r => cases htarget
  | validate env n score existing =>
    rw [target] at htarget
    split_ifs at htarget
    · cases htarget
    · cases htarget
  | simulate env n r =>
    rw [target, Option.ite_none_right_eq_some] at htarget
    have hne := Option.some.inj htarget.2
    split_ifs at hne
  | queueForRatification env n =>
    rw [target, Option.ite_none_right_eq_some] at htarget
    cases htarget.2
  | ratify env n human0Signature =>
    rw [target, Option.ite_none_right_eq_some] at htarget
    exact ⟨env, n, human0Signature, rfl, htarget.1⟩
  | reject env n reason => cases htarget

/-! ### What objects stand for -/

/-- Every object has been through the stages before its own, and a hash that it has is that of the
text of its amendment. -/
structure Earned (rt : Runtime P) (w : World P) : Prop where
  stages : ∀ e, w.engine = some e → ∀ p ∈ e.proposals,
    (path p.stage).Sublist (stagesOf w.ledger p.amendmentId)
  hashes : ∀ e, w.engine = some e → ∀ p ∈ e.proposals, ∀ hash, p.revertHash = some hash →
    ∃ currentText, w.currentTexts.lookup p.amendmentId = some currentText ∧
      revertHash P currentText = .ok hash
  texts : ∀ m ∈ w.currentTexts, ∃ n < w.drawn, m.1 = rt.uuid4 n

theorem earned_empty (rt : Runtime P) : Earned rt {} where
  stages := nofun
  hashes := nofun
  texts := nofun

theorem lookup_append_of_some {texts texts' : List (Str × Str)} {k v : Str}
    (h : texts.lookup k = some v) : (texts ++ texts').lookup k = some v := by
  rw [List.lookup_append, h]
  rfl

theorem Earned.lookup_anew (h : Earned rt w) (currentText : Str) :
    (w.currentTexts ++ [(rt.uuid4 w.drawn, currentText)]).lookup (rt.uuid4 w.drawn) =
      some currentText := by
  have hnone : w.currentTexts.lookup (rt.uuid4 w.drawn) = none := by
    rw [List.lookup_eq_none_iff]
    intro m hm
    obtain ⟨n, hn, hid⟩ := h.texts m hm
    rw [hid, bne_iff_ne]
    intro heq
    exact hn.ne (rt.uuid4_injective heq).symm
  rw [List.lookup_append, hnone, List.lookup_cons_self]
  rfl

theorem Commits.earned {call : Call P} {stop : Option Stop} {e : Engine P} {number : Nat}
    {p : AmendmentProposal P} {next : AmendmentStage} (h : Earned rt w)
    (hobject : w.object number = some (e, p)) (htarget : target rt e p call = some next)
    (hcommits : Commits stop w w' e number p next) : Earned rt w' := by
  obtain ⟨env, e₁, p₁, record, -, hmoves, rfl, hproposals, hhead, rfl⟩ := hcommits
  obtain ⟨he, hp⟩ := object_eq_some.mp hobject
  have hpmem := List.mem_of_getElem? hp
  have hrecord := recordOf_ledgerEntry e₁.state.chainHeadDigest hmoves.recordOf
  refine ⟨fun e' he' q hq => ?_, fun e' he' q hq hash hhash => ?_, ?_⟩
  · rw [(engine_commit env w e₁ record () he').1, hproposals] at hq
    rw [ledger_commit]
    rcases List.mem_or_eq_of_mem_set hq with hq | rfl
    · exact (h.stages e he q hq).trans (stagesOf_sublist _ _ _)
    · rw [hmoves.amendmentId_eq, stagesOf_concat _ hrecord]
      exact (path_target htarget).trans ((h.stages e he p hpmem).append (List.Sublist.refl _))
  · rw [(engine_commit env w e₁ record () he').1, hproposals] at hq
    rw [currentTexts_commit]
    rcases List.mem_or_eq_of_mem_set hq with hq | rfl
    · exact h.hashes e he q hq hash hhash
    · rw [hmoves.revertHash_eq] at hhash
      rw [hmoves.amendmentId_eq]
      exact h.hashes e he p hpmem hash hhash
  · rw [currentTexts_commit, drawn_commit]
    exact h.texts

theorem earned_step (w : World P) (call : Call P) (hw : Good rt w) (h : Earned rt w) :
    Earned rt (step rt w call) := by
  have heffect := effect_step rt w call
  generalize step rt w call = w' at heffect
  cases heffect with
  | opened hardRegistry =>
    refine ⟨fun e he p hp => ?_, fun e he p hp => ?_, h.texts⟩
    · obtain rfl := Option.some.inj he
      exact nomatch hp
    · obtain rfl := Option.some.inj he
      exact nomatch hp
  | idle => exact h
  | moved _ hobject htarget hcommits => exact hcommits.earned h hobject htarget
  | raised env r drawn hdrawn =>
    refine ⟨h.stages, h.hashes, fun m hm => ?_⟩
    obtain ⟨n, hn, hid⟩ := h.texts m hm
    exact ⟨n, hn.trans_le hdrawn, hid⟩
  | @again env r e existing p he _ hexisting _ hstage hrevert =>
    have hproposed : p.stage = .proposed :=
      Option.some.inj (hstage.symm.trans (hw.existing hexisting).1)
    refine ⟨fun e' he' q hq => ?_, fun e' he' q hq hash hhash => ?_, fun m hm => ?_⟩
    · obtain rfl := Option.some.inj he'
      rcases List.mem_append.mp hq with hq | hq
      · exact h.stages e he q hq
      · rw [List.mem_singleton.mp hq, hproposed]
        exact List.nil_sublist _
    · obtain rfl := Option.some.inj he'
      rcases List.mem_append.mp hq with hq | hq
      · exact h.hashes e he q hq hash hhash
      · rw [List.mem_singleton.mp hq, hrevert] at hhash
        exact nomatch hhash
    · obtain ⟨n, hn, hid⟩ := h.texts m hm
      exact ⟨n, Nat.lt_succ_of_lt hn, hid⟩
  | @anew env r e e' p record hash he hanew hid hstage hrevert _ _ hproposals =>
    refine ⟨fun e'' he'' q hq => ?_, fun e'' he'' q hq hash' hhash => ?_, fun m hm => ?_⟩
    · rw [(engine_commit _ _ e' record () he'').1, hproposals, List.mem_append,
        List.mem_singleton] at hq
      rw [ledger_commit]
      rcases hq with hq | rfl
      · exact (h.stages e he q hq).trans (stagesOf_sublist _ _ _)
      · rw [hstage]
        exact List.nil_sublist _
    · rw [(engine_commit _ _ e' record () he'').1, hproposals, List.mem_append,
        List.mem_singleton] at hq
      rw [currentTexts_commit]
      rcases hq with hq | rfl
      · obtain ⟨currentText, hlookup, hrevert'⟩ := h.hashes e he q hq hash' hhash
        exact ⟨currentText, lookup_append_of_some hlookup, hrevert'⟩
      · obtain rfl := Option.some.inj (hrevert.symm.trans hhash)
        rw [hid]
        exact ⟨r.currentText, h.lookup_anew r.currentText, hanew.2.2⟩
    · rw [currentTexts_commit, List.mem_append, List.mem_singleton] at hm
      rw [drawn_commit]
      rcases hm with hm | rfl
      · obtain ⟨n, hn, hid'⟩ := h.texts m hm
        exact ⟨n, Nat.lt_succ_of_lt hn, hid'⟩
      · exact ⟨w.drawn, Nat.lt_succ_self _, rfl⟩

/-! ### Ratified records -/

theorem SoundRecord.mono {texts texts' : List (Str × Str)} {before : List (Record P)}
    (h : SoundRecord texts before record) : SoundRecord (texts ++ texts') before record := by
  obtain ⟨id, signature, currentText, hash, hid, hsignature, hne, hlookup, hrest⟩ := h
  exact ⟨id, signature, currentText, hash, hid, hsignature, hne, lookup_append_of_some hlookup,
    hrest⟩

theorem ratifiedSound_concat_iff {texts : List (Str × Str)} (hw : RatifiedSound w)
    (hledger : w'.ledger = w.ledger ++ [record]) (htexts : w'.currentTexts = w.currentTexts ++ texts) :
    RatifiedSound w' ↔ (get record stageKey = some (.str AmendmentStage.ratified.value) →
      SoundRecord w'.currentTexts w.ledger record) := by
  constructor
  · intro h
    refine h w.ledger record ?_
    rw [hledger]
  · intro h before x hx hstage
    rw [hledger, List.prefix_concat_iff] at hx
    rcases hx with hx | hx
    · obtain ⟨hbefore, hlast⟩ := List.append_inj' hx rfl
      rw [(List.cons.inj hlast).1] at hstage ⊢
      rw [hbefore]
      exact h hstage
    · rw [htexts]
      exact (hw before x hx hstage).mono

theorem soundRecord_ratifiedRecord_iff {e : Engine P} {p : AmendmentProposal P} {number : Nat}
    {signature : Str} (h : Earned rt w) (hobject : w.object number = some (e, p))
    (hstage : p.stage = .pendingH0) (hsignature : strip signature ≠ []) (head now : Str) :
    SoundRecord w.currentTexts w.ledger (ledgerEntry head (ratifiedRecord p signature now)) ↔
      p.revertHash ≠ none := by
  obtain ⟨he, hp⟩ := object_eq_some.mp hobject
  have hpmem := List.mem_of_getElem? hp
  have hnodup := (hasKeys_ratifiedRecord p signature now).nodup_record
  have hid : get (ratifiedRecord p signature now) amendmentIdKey = some (.str p.amendmentId) := by
    refine get_eq_some_of_mem hnodup ?_
    simp only [ratifiedRecord, text, List.mem_cons, true_or, or_true]
  have hsigned : get (ratifiedRecord p signature now) human0SignatureKey = some (.str signature) := by
    refine get_eq_some_of_mem hnodup ?_
    simp only [ratifiedRecord, text, List.mem_cons, true_or, or_true]
  have hrevert : get (ratifiedRecord p signature now) revertHashKey =
      some ((p.revertHash.map Value.str).getD .none) := by
    refine get_eq_some_of_mem hnodup ?_
    simp only [ratifiedRecord, textOrNone, List.mem_cons, true_or, or_true]
  constructor
  · rintro ⟨_, _, _, hash, -, -, -, -, -, hget, -⟩ hnone
    rw [get_ledgerEntry _ _ (by decide), hrevert, hnone] at hget
    cases hget
  · intro hne
    obtain ⟨hash, hhash⟩ := Option.ne_none_iff_exists'.mp hne
    obtain ⟨currentText, hlookup, hcurrent⟩ := h.hashes e he p hpmem hash hhash
    refine ⟨p.amendmentId, signature, currentText, hash, ?_, ?_, hsignature, hlookup, hcurrent, ?_,
      ?_⟩
    · rw [get_ledgerEntry _ _ (by decide), hid]
    · rw [get_ledgerEntry _ _ (by decide), hsigned]
    · rw [get_ledgerEntry _ _ (by decide), hrevert, hhash]
      rfl
    · rw [← hstage]
      exact h.stages e he p hpmem

theorem ratifiedSound_step_iff (w : World P) (call : Call P) (hw : Good rt w ∧ Earned rt w)
    (hsound : RatifiedSound w) : RatifiedSound (step rt w call) ↔ Reverting w call := by
  have heffect := effect_step rt w call
  generalize step rt w call = w' at heffect
  cases heffect with
  | opened hardRegistry => exact iff_of_true hsound trivial
  | @idle call number hnumber htarget =>
    refine iff_of_true hsound ?_
    cases call with
    | openEngine | propose | validate | simulate | queueForRatification | reject => trivial
    | ratify env n human0Signature =>
      obtain rfl := Option.some.inj hnumber
      intro e p hobject hsignature hstage
      have hnone := htarget e p hobject
      rw [target, if_pos ⟨hsignature, hstage⟩] at hnone
      cases hnone
  | @moved call number e p next _ hnumber hobject htarget hcommits =>
    obtain ⟨env, e₁, p₁, record, -, hmoves, rfl, hproposals, hhead, rfl⟩ := hcommits
    rw [ratifiedSound_concat_iff hsound (ledger_commit ..)
      ((currentTexts_commit ..).trans (List.append_nil _).symm), currentTexts_commit,
      get_ledgerEntry _ _ (by decide), hmoves.recordOf.2]
    by_cases hratified : p₁.stage = .ratified
    · rw [hratified] at htarget ⊢
      obtain ⟨env', n, human0Signature, rfl, hguard, hstage⟩ := ratify_of_target htarget
      obtain rfl := Option.some.inj hnumber
      obtain ⟨signature, now, hsignature, rfl⟩ := hmoves.ratified hratified
      rw [imp_iff_right rfl, soundRecord_ratifiedRecord_iff hw.2 hobject hstage hsignature]
      constructor
      · intro hne e' p' hobject' _ _
        obtain ⟨rfl, rfl⟩ := Prod.mk.inj (Option.some.inj (hobject.symm.trans hobject'))
        exact hne
      · exact fun h => h e p hobject hguard hstage
    · refine iff_of_true (fun hvalue => ?_) ?_
      · exact absurd (value_injective (Value.str.inj (Option.some.inj hvalue))) hratified
      · cases call with
        | openEngine | propose | validate | simulate | queueForRatification | reject => trivial
        | ratify env' n human0Signature =>
          rw [target, Option.ite_none_right_eq_some] at htarget
          exact absurd (Option.some.inj htarget.2).symm hratified
  | raised => exact iff_of_true hsound trivial
  | again => exact iff_of_true hsound trivial
  | @anew env r e e' p record hash _ _ _ _ _ _ hrecord =>
    let w₁ := { w with
      drawn := w.drawn + 1
      currentTexts := w.currentTexts ++ [(rt.uuid4 w.drawn, r.currentText)] }
    have hledger := ledger_commit env w₁ e' record ()
    have htexts := currentTexts_commit env w₁ e' record ()
    refine iff_of_true ((ratifiedSound_concat_iff hsound hledger htexts).mpr ?_) trivial
    rw [get_ledgerEntry _ _ (by decide), hrecord.2]
    intro hvalue
    cases value_injective (Value.str.inj (Option.some.inj hvalue))

/-- In every run on new files, every `RATIFIED` record is signed, has the hash of the text that its
amendment was proposed for and comes after the `VALIDATED`, `SIMULATED` and `PENDING_H0` records of
it, in this order, exactly when every call that ratifies does it with an object that has a hash to
revert to. -/
theorem ratifiedSound_run_iff (rt : Runtime P) (calls : List (Call P)) :
    Always (step rt) RatifiedSound {} calls ↔ Meets (step rt) Reverting {} calls := by
  refine always_iff_meets_of_invariant (J := fun w => Good rt w ∧ Earned rt w) ?_
    ratifiedSound_step_iff ⟨good_empty rt, earned_empty rt⟩ ?_
  · rintro w call ⟨hw, h⟩
    exact ⟨good_step w call hw, earned_step w call hw h⟩
  · intro before record hrecord
    have hnil := List.prefix_nil.mp hrecord
    exact absurd hnil (List.append_ne_nil_of_right_ne_nil _ (List.cons_ne_nil _ _))

/-! ### An amendment that is proposed twice -/

theorem Commits.exists_object {e : Engine P} {number : Nat} {p : AmendmentProposal P}
    {next : AmendmentStage} (hobject : w.object number = some (e, p))
    (hcommits : Commits none w w' e number p next) :
    ∃ e' p', w'.object number = some (e', p') ∧ p'.stage = next ∧ p'.revertHash = p.revertHash := by
  obtain ⟨env, e₁, p₁, record, hstop, hmoves, hstage, hproposals, -, rfl⟩ := hcommits
  obtain ⟨-, hp⟩ := object_eq_some.mp hobject
  have hp₁ : e₁.proposals[number]? = some p₁ := by
    rw [hproposals, List.getElem?_set_self', hp]
    rfl
  obtain ⟨e', hobject'⟩ := exists_object_commit hstop w hp₁ record ()
  exact ⟨e', p₁, hobject', hstage, hmoves.revertHash_eq⟩

def sampleSimulation : SimulateRequest where
  dryRunPasses := true
  hardInvariantsAffected := []
  softInvariantsAffected := []
  hex := str "00000000"

/-- The object that is returned for the second proposal of an amendment is ratified. -/
def repeatedRun : List (Call reference) :=
  [.openEngine [], .propose (sampleEnv none) (sampleRequest (str "a")),
    .propose (sampleEnv none) (sampleRequest (str "a")),
    .validate (sampleEnv none) 1 sampleScore [], .simulate (sampleEnv none) 1 sampleSimulation,
    .queueForRatification (sampleEnv none) 1, .ratify (sampleEnv none) 1 (str "signed")]

/-- The `RATIFIED` record has no hash to revert to. -/
theorem not_ratifiedSound_run : ¬ Always (step sampleRuntime) RatifiedSound {} repeatedRun := by
  rw [ratifiedSound_run_iff]
  rintro ⟨-, -, -, -, -, -, hreverting, -⟩
  have hgood : Good sampleRuntime (openEngine ({} : World reference) []) :=
    good_openEngine (good_empty sampleRuntime) []
  have hanew : ProposesAnew (openEngine ({} : World reference) []) (sampleRequest (str "a"))
      (reference.sha256 []) := ⟨by decide, rfl, rfl⟩
  obtain ⟨e, he, hproposals⟩ :=
    exists_engine_propose sampleRuntime (sampleEnv none) rfl rfl hanew
  obtain ⟨existing, hexisting⟩ := exists_existing_propose (sampleEnv none) hgood rfl hanew
  have hgood' := good_step _ (.propose (sampleEnv none) (sampleRequest (str "a"))) hgood
  have hproposed := (hgood'.existing hexisting).1
  -- the second object has no hash
  have hagain := step_proposeAgain sampleRuntime (sampleEnv none) he (by decide) hexisting
    hproposed
  let p := proposalAgain (sampleRequest (str "a")) existing .proposed ((sampleEnv none).times 1)
  have hobject : (step sampleRuntime (step sampleRuntime (openEngine {} [])
      (.propose (sampleEnv none) (sampleRequest (str "a"))))
      (.propose (sampleEnv none) (sampleRequest (str "a")))).object 1 =
        some ({ e with proposals := e.proposals ++ [p] }, p) := by
    rw [hagain]
    refine object_eq_some.mpr ⟨rfl, ?_⟩
    rw [hproposals]
    rfl
  have hpassed : (validationResult sampleRuntime { e with proposals := e.proposals ++ [p] } p
      sampleScore []).passed = true := rfl
  have hvalidated := commits_step sampleRuntime (.validate (sampleEnv none) 1 sampleScore []) rfl
    hobject rfl
  rw [if_pos hpassed] at hvalidated
  obtain ⟨e₁, p₁, hobject₁, hstage₁, hrevert₁⟩ := hvalidated.exists_object hobject
  have hsimulated := commits_step sampleRuntime (.simulate (sampleEnv none) 1 sampleSimulation) rfl
    hobject₁ (if_pos hstage₁)
  have hpassed₁ : (simulationResult p₁ sampleSimulation).passed = true := by
    simp [simulationResult, scopeViolation, sampleSimulation]
  rw [if_pos hpassed₁] at hsimulated
  obtain ⟨e₂, p₂, hobject₂, hstage₂, hrevert₂⟩ := hsimulated.exists_object hobject₁
  have hpending := commits_step sampleRuntime (.queueForRatification (sampleEnv none) 1) rfl
    hobject₂ (if_pos hstage₂)
  obtain ⟨e₃, p₃, hobject₃, hstage₃, hrevert₃⟩ := hpending.exists_object hobject₂
  have hsigned : strip (str "signed") ≠ [] := by decide
  exact hreverting e₃ p₃ hobject₃ hsigned hstage₃ (hrevert₃.trans (hrevert₂.trans hrevert₁))

end Adaad.SelfAmendment
