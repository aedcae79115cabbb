import Adaad.Dorkllm.Equiv.AmendmentCalls

/-!
# The stages of an amendment

A `RATIFIED` or `REJECTED` record seals an amendment.  `validate` and `reject` look at no stage, and
`propose` returns an object with the stage of the first record; so a sealed amendment keeps its
stage exactly in the runs without such calls on it (`keeps_run_iff`).
-/

namespace Adaad.SelfAmendment

open Py Run

variable {P : Platform} {rt : Runtime P} {w w' : World P}

/-! ### Sealed amendments -/

/-- The ledger has a record that ratifies or rejects the amendment. -/
def Sealed (ledger : List (Record P)) (amendmentId : Str) (stage : AmendmentStage) : Prop :=
  (stage = .ratified ∨ stage = .rejected) ∧ ∃ record ∈ ledger, RecordOf record amendmentId stage

/-- From one world to a later one, the sealed amendments keep their stage: no record gives them
another one, and no object is made of them, or taken, to another one. -/
structure Keeps (w w' : World P) : Prop where
  records : ∃ new, w'.ledger = w.ledger ++ new ∧
    ∀ amendmentId stage, Sealed w.ledger amendmentId stage → ∀ record ∈ new,
      get record amendmentIdKey = some (.str amendmentId) →
        get record stageKey = some (.str stage.value)
  objects : ∀ amendmentId stage, Sealed w.ledger amendmentId stage → ∀ number e' p',
    w'.object number = some (e', p') → p'.amendmentId = amendmentId →
      p'.stage = stage ∨ ∃ e p, w.object number = some (e, p) ∧ p.amendmentId = amendmentId ∧
        p.stage = p'.stage

/-- A call that keeps the sealed amendments: `propose` does not find one, and a call on an object of
one takes it to the stage that it has. -/
def Allowed (rt : Runtime P) (w : World P) : Call P → Prop
  | .openEngine _ => True
  | .propose _ r => w.engine ≠ none → minEvidence ≤ r.supportingInvariantIds.length →
      ∀ existing ∈ w.existing r, ∀ stage, ¬ Sealed w.ledger (existingId existing) stage
  | .validate _ number score existing => ∀ e p, w.object number = some (e, p) →
      ∀ stage, Sealed w.ledger p.amendmentId stage →
        stage = .rejected ∧ (validationResult rt e p score existing).passed = false
  | .simulate _ number r => ∀ e p, w.object number = some (e, p) → p.stage = .validated →
      ∀ stage, Sealed w.ledger p.amendmentId stage →
        stage = .rejected ∧ (simulationResult p r).passed = false
  | .queueForRatification _ number => ∀ e p, w.object number = some (e, p) →
      p.stage = .simulated → ∀ stage, ¬ Sealed w.ledger p.amendmentId stage
  | .ratify _ number human0Signature => ∀ e p, w.object number = some (e, p) →
      strip human0Signature ≠ [] → p.stage = .pendingH0 →
        ∀ stage, Sealed w.ledger p.amendmentId stage → stage = .ratified
  | .reject _ number _ => ∀ e p, w.object number = some (e, p) →
      ∀ stage, Sealed w.ledger p.amendmentId stage → stage = .rejected

theorem Sealed.mono {ledger new : List (Record P)} {amendmentId : Str} {stage : AmendmentStage}
    (h : Sealed ledger amendmentId stage) : Sealed (ledger ++ new) amendmentId stage := by
  obtain ⟨hstage, record, hmem, hrecord⟩ := h
  exact ⟨hstage, record, List.mem_append_left _ hmem, hrecord⟩

theorem keeps_refl (w : World P) : Keeps w w where
  records := ⟨[], (List.append_nil _).symm, fun _ _ _ _ h => nomatch h⟩
  objects _ _ _ _ e' p' h hid := .inr ⟨e', p', h, hid, rfl⟩

theorem Keeps.trans {w'' : World P} (h : Keeps w w') (h' : Keeps w' w'') : Keeps w w'' := by
  obtain ⟨new, hnew, hrecords⟩ := h.records
  obtain ⟨new', hnew', hrecords'⟩ := h'.records
  have hsealed : ∀ {amendmentId : Str} {stage : AmendmentStage},
      Sealed w.ledger amendmentId stage → Sealed w'.ledger amendmentId stage := by
    intro amendmentId stage hs
    rw [hnew]
    exact hs.mono
  refine ⟨⟨new ++ new', ?_, ?_⟩, ?_⟩
  · rw [hnew', hnew, List.append_assoc]
  · intro amendmentId stage hs record hmem hid
    rcases List.mem_append.mp hmem with hmem | hmem
    · exact hrecords amendmentId stage hs record hmem hid
    · exact hrecords' amendmentId stage (hsealed hs) record hmem hid
  · intro amendmentId stage hs number e'' p'' hobject hid
    rcases h'.objects amendmentId stage (hsealed hs) number e'' p'' hobject hid with
      hstage | ⟨e', p', hobject', hid', hstage'⟩
    · exact .inl hstage
    · rcases h.objects amendmentId stage hs number e' p' hobject' hid' with
        hstage | ⟨e, p, hobject, hid, hstage⟩
      · exact .inl (hstage'.symm.trans hstage)
      · exact .inr ⟨e, p, hobject, hid, hstage.trans hstage'⟩

/-! ### One call -/

theorem value_injective : Function.Injective AmendmentStage.value := by
  intro s t h
  revert h
  cases s <;> cases t <;> decide

theorem outcome_eq_iff {passed : Bool} {success stage : AmendmentStage}
    (hsuccess : success ≠ .ratified ∧ success ≠ .rejected)
    (hstage : stage = .ratified ∨ stage = .rejected) :
    (if passed then success else .rejected) = stage ↔ stage = .rejected ∧ passed = false := by
  cases passed with
  | false =>
    rw [if_neg Bool.false_ne_true, and_iff_left rfl]
    exact eq_comm
  | true =>
    rw [if_pos rfl]
    refine iff_of_false ?_ fun h => nomatch h.2
    rintro rfl
    rcases hstage with h | h
    · exact hsuccess.1 h
    · exact hsuccess.2 h

theorem allowed_iff {call : Call P} {number : Nat} (hnumber : call.number = some number) :
    Allowed rt w call ↔ ∀ e p, w.object number = some (e, p) → ∀ next,
      target rt e p call = some next → ∀ stage, Sealed w.ledger p.amendmentId stage →
        next = stage := by
  cases call with
  | openEngine hardRegistry => cases hnumber
  | propose env r => cases hnumber
  | validate env n score existing =>
    obtain rfl := Option.some.inj hnumber
    have hsuccess : AmendmentStage.validated ≠ .ratified ∧ AmendmentStage.validated ≠ .rejected := by
      decide
    constructor
    · intro h e p hobject next hnext stage hs
      obtain rfl := Option.some.inj hnext
      exact (outcome_eq_iff hsuccess hs.1).mpr (h e p hobject stage hs)
    · intro h e p hobject stage hs
      exact (outcome_eq_iff hsuccess hs.1).mp (h e p hobject _ rfl stage hs)
  | simulate env n r =>
    obtain rfl := Option.some.inj hnumber
    have hsuccess : AmendmentStage.simulated ≠ .ratified ∧ AmendmentStage.simulated ≠ .rejected := by
      decide
    constructor
    · intro h e p hobject next hnext stage hs
      rw [target, Option.ite_none_right_eq_some] at hnext
      obtain ⟨hp, hnext⟩ := hnext
      obtain rfl := Option.some.inj hnext
      exact (outcome_eq_iff hsuccess hs.1).mpr (h e p hobject hp stage hs)
    · intro h e p hobject hp stage hs
      refine (outcome_eq_iff hsuccess hs.1).mp (h e p hobject _ ?_ stage hs)
      rw [target, if_pos hp]
  | queueForRatification env n =>
    obtain rfl := Option.some.inj hnumber
    constructor
    · intro h e p hobject next hnext stage hs
      rw [target, Option.ite_none_right_eq_some] at hnext
      exact absurd hs (h e p hobject hnext.1 stage)
    · intro h e p hobject hp stage hs
      have heq := h e p hobject .pendingH0 (by rw [target, if_pos hp]) stage hs
      rcases hs.1 with hstage | hstage
      · cases heq.trans hstage
      · cases heq.trans hstage
  | ratify env n human0Signature =>
    obtain rfl := Option.some.inj hnumber
    constructor
    · intro h e p hobject next hnext stage hs
      rw [target, Option.ite_none_right_eq_some] at hnext
      obtain ⟨⟨hsignature, hp⟩, hnext⟩ := hnext
      obtain rfl := Option.some.inj hnext
      exact (h e p hobject hsignature hp stage hs).symm
    · intro h e p hobject hsignature hp stage hs
      refine (h e p hobject .ratified ?_ stage hs).symm
      rw [target, if_pos ⟨hsignature, hp⟩]
  | reject env n reason =>
    obtain rfl := Option.some.inj hnumber
    constructor
    · intro h e p hobject next hnext stage hs
      obtain rfl := Option.some.inj hnext
      exact (h e p hobject stage hs).symm
    · intro h e p hobject stage hs
      exact (h e p hobject .rejected rfl stage hs).symm

theorem recordOf_ledgerEntry {record : Record P} {amendmentId : Str} {stage : AmendmentStage}
    (head : Str) (h : RecordOf record amendmentId stage) :
    RecordOf (ledgerEntry head record) amendmentId stage := by
  unfold RecordOf
  rw [get_ledgerEntry head record (by decide), get_ledgerEntry head record (by decide)]
  exact h

theorem keeps_commits_iff {stop : Option Stop} {e : Engine P} {number : Nat}
    {p : AmendmentProposal P} {next : AmendmentStage} (hobject : w.object number = some (e, p))
    (hcommits : Commits stop w w' e number p next) :
    Keeps w w' ↔ ∀ stage, Sealed w.ledger p.amendmentId stage → next = stage := by
  obtain ⟨env, e₁, p₁, record, -, hmoves, rfl, hproposals, hhead, rfl⟩ := hcommits
  obtain ⟨he, hp⟩ := object_eq_some.mp hobject
  obtain ⟨hid, hstage⟩ := recordOf_ledgerEntry e₁.state.chainHeadDigest hmoves.recordOf
  constructor
  · intro h stage hs
    obtain ⟨new, hnew, hrecords⟩ := h.records
    rw [ledger_commit] at hnew
    have hmem : ledgerEntry e₁.state.chainHeadDigest record ∈ new := by
      rw [← List.append_cancel_left hnew]
      exact List.mem_singleton_self _
    have heq := hstage.symm.trans (hrecords _ stage hs _ hmem hid)
    exact value_injective (Value.str.inj (Option.some.inj heq))
  · intro h
    refine ⟨⟨_, ledger_commit .., ?_⟩, ?_⟩
    · intro amendmentId stage hs x hx hx'
      rw [List.mem_singleton.mp hx] at hx' ⊢
      obtain rfl := Value.str.inj (Option.some.inj (hid.symm.trans hx'))
      rw [← h stage hs]
      exact hstage
    · intro amendmentId stage hs n e' p' hobject' hid'
      obtain ⟨he', hp'⟩ := object_eq_some.mp hobject'
      rw [(engine_commit env w e₁ record () he').1, hproposals, List.getElem?_set] at hp'
      split_ifs at hp' with hn hlt
      · obtain rfl := Option.some.inj hp'
        refine .inl (h stage ?_)
        rw [← hmoves.amendmentId_eq, hid']
        exact hs
      · exact .inr ⟨e, p', object_eq_some.mpr ⟨he, hp'⟩, hid', rfl⟩

theorem getElem?_concat {α : Type} {xs : List α} {x y : α} {n : Nat}
    (h : (xs ++ [x])[n]? = some y) : xs[n]? = some y ∨ y = x := by
  rw [List.getElem?_append] at h
  split_ifs at h
  · exact .inl h
  · exact .inr (List.mem_singleton.mp (List.mem_of_getElem? h))

theorem Good.not_sealed (h : Good rt w) (stage : AmendmentStage) :
    ¬ Sealed w.ledger (rt.uuid4 w.drawn) stage := by
  rintro ⟨-, record, hmem, hid, -⟩
  obtain ⟨n, hn, hid'⟩ := h.records record hmem
  have heq := rt.uuid4_injective (Value.str.inj (Option.some.inj (hid.symm.trans hid')))
  exact hn.ne heq.symm

theorem keeps_step_iff (w : World P) (call : Call P) (hw : Good rt w) :
    Keeps w (step rt w call) ↔ Allowed rt w call := by
  have heffect := effect_step rt w call
  generalize step rt w call = w' at heffect
  cases heffect with
  | opened hardRegistry =>
    refine iff_of_true ⟨⟨[], (List.append_nil _).symm, fun _ _ _ _ h => nomatch h⟩, ?_⟩ trivial
    intro amendmentId stage _ number e' p' hobject
    obtain ⟨he, hp⟩ := object_eq_some.mp hobject
    obtain rfl := Option.some.inj he
    exact nomatch hp
  | idle hnumber htarget =>
    refine iff_of_true (keeps_refl w) ((allowed_iff hnumber).mpr ?_)
    intro e p hobject next hnext
    exact nomatch (htarget e p hobject).symm.trans hnext
  | moved hnumber hobject htarget hcommits =>
    rw [keeps_commits_iff hobject hcommits, allowed_iff hnumber]
    constructor
    · intro h e' p' hobject' next hnext
      obtain ⟨rfl, rfl⟩ := Prod.mk.inj (Option.some.inj (hobject.symm.trans hobject'))
      obtain rfl := Option.some.inj (htarget.symm.trans hnext)
      exact h
    · exact fun h => h _ _ hobject _ htarget
  | raised env r drawn hdrawn hagain =>
    refine iff_of_true ⟨(keeps_refl w).records, (keeps_refl w).objects⟩ ?_
    intro hengine hquorum existing hexisting
    exact nomatch (hagain hengine hquorum existing hexisting).symm.trans (hw.existing hexisting).1
  | @again env r e existing p he hquorum hexisting hid hstage =>
    have hproposed : p.stage = .proposed :=
      Option.some.inj (hstage.symm.trans (hw.existing hexisting).1)
    have hengine : w.engine ≠ none := by
      rw [he]
      exact Option.some_ne_none e
    constructor
    · intro h _ _ existing' hexisting' stage hs
      obtain rfl := Option.some.inj (hexisting.symm.trans hexisting')
      -- the new object is another one of the sealed amendment
      have hobject : World.object { w with
          drawn := w.drawn + 1
          engine := some { e with proposals := e.proposals ++ [p] } } e.proposals.length =
          some ({ e with proposals := e.proposals ++ [p] }, p) :=
        object_eq_some.mpr ⟨rfl, List.getElem?_concat_length⟩
      rcases h.objects _ stage hs _ _ _ hobject hid with heq | ⟨e', p', hobject', -⟩
      · rcases hs.1 with hsealed | hsealed
        · exact nomatch hproposed.symm.trans (heq.trans hsealed)
        · exact nomatch hproposed.symm.trans (heq.trans hsealed)
      · obtain ⟨he', hp'⟩ := object_eq_some.mp hobject'
        obtain rfl := Option.some.inj (he.symm.trans he')
        rw [List.getElem?_eq_none le_rfl] at hp'
        exact nomatch hp'
    · intro h
      refine ⟨(keeps_refl w).records, fun amendmentId stage hs n e' p' hobject hid' => ?_⟩
      obtain ⟨he', hp'⟩ := object_eq_some.mp hobject
      obtain rfl := Option.some.inj he'
      rcases getElem?_concat hp' with hp' | rfl
      · exact .inr ⟨e, p', object_eq_some.mpr ⟨he, hp'⟩, hid', rfl⟩
      · rw [← hid', hid] at hs
        exact absurd hs (h hengine hquorum existing hexisting stage)
  | @anew env r e e' p record hash he hanew hid _ _ _ hrecord hproposals =>
    refine iff_of_true ⟨⟨_, ledger_commit .., ?_⟩, ?_⟩ ?_
    · intro amendmentId stage hs x hx hx'
      rw [List.mem_singleton.mp hx,
        (recordOf_ledgerEntry e'.state.chainHeadDigest hrecord).1] at hx'
      rw [← Value.str.inj (Option.some.inj hx'), hid] at hs
      exact absurd hs (hw.not_sealed stage)
    · intro amendmentId stage hs n e'' p'' hobject hid'
      obtain ⟨he'', hp''⟩ := object_eq_some.mp hobject
      rw [(engine_commit _ _ e' record () he'').1, hproposals] at hp''
      rcases getElem?_concat hp'' with hp'' | rfl
      · exact .inr ⟨e, p'', object_eq_some.mpr ⟨he, hp''⟩, hid', rfl⟩
      · rw [← hid', hid] at hs
        exact absurd hs (hw.not_sealed stage)
    · intro _ _ existing hexisting
      exact nomatch hanew.2.1.symm.trans hexisting

/-- In every run on new files, an amendment that a record has ratified or rejected keeps its stage
exactly when every call is allowed: no record gives it another stage from then on, and no object of
it gets another. -/
theorem keeps_run_iff (rt : Runtime P) (calls : List (Call P)) :
    Henceforth (step rt) Keeps {} calls ↔ Meets (step rt) (Allowed rt) {} calls :=
  (henceforth_iff_meets keeps_refl fun _ _ _ => Keeps.trans).trans
    (meets_congr_of_invariant good_step keeps_step_iff (good_empty rt))

/-! ### A rejected amendment that is validated -/

theorem exists_engine_propose (rt : Runtime P) (env : Env) {e : Engine P} {r : ProposeRequest}
    {hash : Str} (hstop : env.stop = none) (he : w.engine = some e) (hanew : ProposesAnew w r hash) :
    ∃ e', (step rt w (.propose env r)).engine = some e' ∧ e'.proposals =
      e.proposals ++ [proposalAnew P r (rt.uuid4 w.drawn) (env.times 1) hash] := by
  rw [step_proposeAnew env he hanew]
  obtain ⟨e', he', -⟩ := commit_of_no_stop env _ _ _ () hstop
  exact ⟨e', he', (engine_commit _ _ _ _ () he').1⟩

theorem exists_object_reject (rt : Runtime P) (env : Env) {e : Engine P}
    {p : AmendmentProposal P} {number : Nat} (hstop : env.stop = none)
    (hobject : w.object number = some (e, p)) (reason : Str) :
    (∃ e', (step rt w (.reject env number reason)).object number =
      some (e', { p with stage := .rejected, rejectionReason := some reason })) ∧
      Sealed (step rt w (.reject env number reason)).ledger p.amendmentId .rejected := by
  obtain ⟨he, hp⟩ := object_eq_some.mp hobject
  constructor
  · rw [step, onProposal_of_object hobject]
    refine exists_object_commit hstop _ ?_ _ _
    show (e.proposals.set number _)[number]? = _
    rw [List.getElem?_set_self']
    rw [hp]
    rfl
  · obtain ⟨env', e', p', record, -, hmoves, hstage, -, -, hstep⟩ :=
      commits_step rt (.reject env number reason) rfl hobject rfl
    rw [hstep, ledger_commit]
    have hrecord := hmoves.recordOf
    rw [hstage] at hrecord
    exact ⟨.inr rfl, _, List.mem_append_right _ (List.mem_singleton_self _),
      recordOf_ledgerEntry _ hrecord⟩

def sampleScore : reference.Float :=
  LiteralFloat.ofText (.lit ⟨false, str "0", str "9", none⟩)

/-- An amendment is proposed and rejected; then `validate` is called on it. -/
def validatedRun : List (Call reference) :=
  [.openEngine [], .propose (sampleEnv none) (sampleRequest (str "a")),
    .reject (sampleEnv none) 0 (str "vetoed"), .validate (sampleEnv none) 0 sampleScore []]

/-- The rejected amendment is `VALIDATED` then. -/
theorem not_keeps_run : ¬ Henceforth (step sampleRuntime) Keeps {} validatedRun := by
  rw [keeps_run_iff]
  rintro ⟨-, -, -, hallowed, -⟩
  have hanew : ProposesAnew (openEngine ({} : World reference) []) (sampleRequest (str "a"))
      (reference.sha256 []) := ⟨by decide, rfl, rfl⟩
  obtain ⟨e, he, hproposals⟩ :=
    exists_engine_propose sampleRuntime (sampleEnv none) rfl rfl hanew
  have hobject := object_eq_some.mpr ⟨he, (congrArg (·[0]?) hproposals).trans rfl⟩
  obtain ⟨⟨e', hobject'⟩, hsealed⟩ :=
    exists_object_reject sampleRuntime (sampleEnv none) rfl hobject (str "vetoed")
  have hfailed := (hallowed e' _ hobject' .rejected hsealed).2
  exact nomatch hfailed

end Adaad.SelfAmendment
