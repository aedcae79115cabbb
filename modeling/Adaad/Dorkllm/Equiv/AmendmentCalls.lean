import Adaad.Dorkllm.Equiv.AmendmentLedger
import Adaad.Py.Reference

/-!
# The calls of the engine

What each call does (`effect_step`).  A call on an object either fails its guard and changes
nothing, or takes the object to the stage `target` and appends a record of that; `propose` raises,
returns an object for what is in the ledger already, or makes a new one with a record.

From this follows what every world looks like that calls can lead to (`Good`).
-/

namespace Adaad.SelfAmendment

open Py

variable {P : Platform} {rt : Runtime P} {w : World P} {e : Engine P} {p p' : AmendmentProposal P}
  {record : Record P}

/-! ### Records -/

/-- The record gives this stage to the amendment. -/
def RecordOf (record : Record P) (amendmentId : Str) (stage : AmendmentStage) : Prop :=
  get record amendmentIdKey = some (.str amendmentId) ∧
    get record stageKey = some (.str stage.value)

/-- An object is changed, and this is the record of it. -/
structure Moves (p p' : AmendmentProposal P) (record : Record P) : Prop where
  regular : Regular record
  recordOf : RecordOf record p.amendmentId p'.stage
  contentHash : get record contentHashKey = none
  amendmentId_eq : p'.amendmentId = p.amendmentId
  revertHash_eq : p'.revertHash = p.revertHash
  ratified : p'.stage = .ratified →
    ∃ signature now, strip signature ≠ [] ∧ record = ratifiedRecord p signature now

theorem flat_textOrNone (k : Str) (v : Option Str) : (textOrNone (P := P) k v).2.Flat := by
  cases v <;> trivial

theorem flat_texts (k : Str) (vs : List Str) : (texts (P := P) k vs).2.Flat :=
  List.forall_mem_map.mpr fun s _ => ⟨s, rfl⟩

/-- The keys of the record are these, they can be chained, and `content_hash` is not one of them. -/
structure HasKeys (record : Record P) (ks : List Str) : Prop where
  keys : record.map Prod.fst = ks.map Key.str
  nodup : (ks ++ [prevDigestKey, digestKey] ++ [contentHashKey]).Nodup
  ascii : ∀ k ∈ ks, ∀ c ∈ k, c < 127
  flat : ∀ m ∈ record, m.2.Flat

namespace HasKeys

variable {ks : List Str} (h : HasKeys record ks)

include h

theorem regular : Regular record :=
  ⟨⟨ks, h.keys, h.nodup.of_append_left, h.ascii⟩, h.flat⟩

theorem nodup_record : (record.map Prod.fst).Nodup := by
  rw [h.keys]
  exact h.nodup.of_append_left.of_append_left.map fun s t heq => Key.str.inj heq

theorem get_contentHash : get record contentHashKey = none := by
  refine get_eq_none_of_notMem ?_
  rw [h.keys]
  intro hmem
  obtain ⟨k, hk, heq⟩ := List.mem_map.mp hmem
  rw [Key.str.inj heq] at hk
  exact List.disjoint_of_nodup_append h.nodup (List.mem_append_left _ hk) (by simp)

theorem recordOf {amendmentId : Str} {stage : AmendmentStage}
    (hid : text amendmentIdKey amendmentId ∈ record) (hstage : text stageKey stage.value ∈ record) :
    RecordOf record amendmentId stage :=
  ⟨get_eq_some_of_mem h.nodup_record hid, get_eq_some_of_mem h.nodup_record hstage⟩

end HasKeys

theorem moves_of_keys (ks : List Str) (h : HasKeys record ks)
    (hmem : text amendmentIdKey p.amendmentId ∈ record ∧ text stageKey p'.stage.value ∈ record)
    (hamendment : p'.amendmentId = p.amendmentId) (hrevert : p'.revertHash = p.revertHash)
    (hratified : p'.stage ≠ .ratified) : Moves p p' record :=
  ⟨h.regular, h.recordOf hmem.1 hmem.2, h.get_contentHash, hamendment, hrevert,
    fun hstage => absurd hstage hratified⟩

/-! ### Appending -/

section commit

variable {α : Type} (env : Env) (w : World P) (e : Engine P) (record : Record P) (a : α)

@[simp] theorem ledger_commit : (commit env w e record a).1.ledger =
    w.ledger ++ [ledgerEntry e.state.chainHeadDigest record] := by
  unfold commit
  rcases env.stop with _ | _ | _ <;> rfl

@[simp] theorem drawn_commit : (commit env w e record a).1.drawn = w.drawn := by
  unfold commit
  rcases env.stop with _ | _ | _ <;> rfl

@[simp] theorem currentTexts_commit :
    (commit env w e record a).1.currentTexts = w.currentTexts := by
  unfold commit
  rcases env.stop with _ | _ | _ <;> rfl

theorem fst_commit : (commit env w e record a).1 = (commit env w e record ()).1 := by
  unfold commit
  rcases env.stop with _ | _ | _ <;> rfl

theorem commit_of_no_stop (hstop : env.stop = none) : ∃ e' : Engine P,
    (commit env w e record a).1.engine = some e' ∧
      (commit env w e record a).1.stateFile = some e'.state := by
  unfold commit
  rw [hstop]
  exact ⟨_, rfl, rfl⟩

theorem engine_commit {e' : Engine P} (h : (commit env w e record a).1.engine = some e') :
    e'.proposals = e.proposals ∧ e'.state.chainHeadDigest = hmacDigest P (canonicalJson P
      (.dict (record ++ [text prevDigestKey e.state.chainHeadDigest]))) := by
  unfold commit at h
  rcases hstop : env.stop with _ | _ | _ <;> rw [hstop] at h
  · obtain rfl := Option.some.inj h
    exact ⟨rfl, rfl⟩
  · exact nomatch h
  · exact nomatch h

theorem stateFile_commit {s : ACSAState} (h : (commit env w e record a).1.stateFile = some s) :
    w.stateFile = some s ∨ ∃ e', (commit env w e record a).1.engine = some e' ∧ e'.state = s := by
  unfold commit at h ⊢
  rcases hstop : env.stop with _ | _ | _ <;> rw [hstop] at h
  · exact .inr ⟨_, rfl, Option.some.inj h⟩
  · exact .inl h
  · exact nomatch h

end commit

/-! ### Calls on objects -/

/-- The object with a number, and the engine that has returned it. -/
def World.object (w : World P) (number : Nat) : Option (Engine P × AmendmentProposal P) :=
  w.engine.bind fun e => e.proposals[number]?.map (e, ·)

def Call.number : Call P → Option Nat
  | .openEngine _ => none
  | .propose _ _ => none
  | .validate _ number _ _ => some number
  | .simulate _ number _ => some number
  | .queueForRatification _ number => some number
  | .ratify _ number _ => some number
  | .reject _ number _ => some number

/-- Whether and where the process stops during a call. -/
def Call.stop : Call P → Option Stop
  | .openEngine _ => none
  | .propose env _ => env.stop
  | .validate env _ _ _ => env.stop
  | .simulate env _ _ => env.stop
  | .queueForRatification env _ => env.stop
  | .ratify env _ _ => env.stop
  | .reject env _ _ => env.stop

/-- The stage that a call takes its object to; it is `none` where the guard fails. -/
def target (rt : Runtime P) (e : Engine P) (p : AmendmentProposal P) :
    Call P → Option AmendmentStage
  | .openEngine _ => none
  | .propose _ _ => none
  | .validate _ _ score existing =>
    some (if (validationResult rt e p score existing).passed then .validated else .rejected)
  | .simulate _ _ r =>
    if p.stage = .validated then
      some (if (simulationResult p r).passed then .simulated else .rejected)
    else none
  | .queueForRatification _ _ => if p.stage = .simulated then some .pendingH0 else none
  | .ratify _ _ human0Signature =>
    if strip human0Signature ≠ [] ∧ p.stage = .pendingH0 then some .ratified else none
  | .reject _ _ _ => some .rejected

/-- The object with this number is taken to a stage, and the record of that appended; the process
may stop. -/
def Commits (stop : Option Stop) (w w' : World P) (e : Engine P) (number : Nat)
    (p : AmendmentProposal P) (stage : AmendmentStage) : Prop :=
  ∃ (env : Env) (e' : Engine P) (p' : AmendmentProposal P) (record : Record P),
    env.stop = stop ∧ Moves p p' record ∧ p'.stage = stage ∧
      e'.proposals = e.proposals.set number p' ∧
      e'.state.chainHeadDigest = e.state.chainHeadDigest ∧ w' = (commit env w e' record ()).1

theorem Moves.commits {α : Type} {e' : Engine P} {stage : AmendmentStage} {env : Env} {a : α}
    (p' : AmendmentProposal P) (h : Moves p p' record) (hstage : p'.stage = stage) {number : Nat}
    (hproposals : e'.proposals = e.proposals.set number p')
    (hhead : e'.state.chainHeadDigest = e.state.chainHeadDigest) :
    Commits env.stop w (commit env w e' record a).1 e number p stage :=
  ⟨env, e', p', record, rfl, h, hstage, hproposals, hhead, fst_commit ..⟩

theorem object_eq_some {number : Nat} :
    w.object number = some (e, p) ↔ w.engine = some e ∧ e.proposals[number]? = some p := by
  unfold World.object
  rw [Option.bind_eq_some_iff]
  constructor
  · rintro ⟨e', he, h⟩
    obtain ⟨p', hp, heq⟩ := Option.map_eq_some_iff.mp h
    obtain ⟨rfl, rfl⟩ := Prod.mk.inj heq
    exact ⟨he, hp⟩
  · rintro ⟨he, hp⟩
    exact ⟨e, he, Option.map_eq_some_iff.mpr ⟨p, hp, rfl⟩⟩

theorem exists_object_commit {α : Type} {env : Env} (hstop : env.stop = none) (w : World P)
    {number : Nat} (hp : e.proposals[number]? = some p) (record : Record P) (a : α) :
    ∃ e', (commit env w e record a).1.object number = some (e', p) := by
  obtain ⟨e', he', -⟩ := commit_of_no_stop env w e record a hstop
  refine ⟨e', object_eq_some.mpr ⟨he', ?_⟩⟩
  rw [(engine_commit env w e record a he').1]
  exact hp

theorem onProposal_of_object {number : Nat} (h : w.object number = some (e, p))
    (f : Engine P → AmendmentProposal P → World P) : onProposal w number f = f e p := by
  obtain ⟨he, hp⟩ := object_eq_some.mp h
  unfold onProposal
  rw [he]
  dsimp only
  rw [hp]

theorem onProposal_of_none {number : Nat} (h : w.object number = none)
    (f : Engine P → AmendmentProposal P → World P) : onProposal w number f = w := by
  unfold onProposal
  rcases he : w.engine with _ | e
  · rfl
  · dsimp only
    rcases hp : e.proposals[number]? with _ | p
    · rfl
    · exact nomatch h.symm.trans (object_eq_some.mpr ⟨he, hp⟩)

theorem commits_validate (env : Env) (number : Nat) (score : P.Float) (existing : List Str) :
    Commits env.stop w (validate rt env w e number p score existing).1 e number p
      (if (validationResult rt e p score existing).passed then .validated else .rejected) := by
  unfold validate
  dsimp only
  by_cases hpassed : (validationResult rt e p score existing).passed = true
  · rw [if_pos hpassed, if_pos hpassed]
    refine Moves.commits { p with stage := .validated, cgvfScore := score } ?_ rfl rfl rfl
    refine moves_of_keys [eventKey, amendmentIdKey, str "cgvf_score", str "conflict_check",
      stageKey, str "timestamp", str "governor", str "agent"] ⟨rfl, by decide, by decide, ?_⟩ ?_
      rfl rfl
      (fun h => by cases h)
    · simp only [List.forall_mem_cons]
      exact ⟨trivial, trivial, trivial, trivial, trivial, trivial, trivial, trivial,
        List.forall_mem_nil _⟩
    · simp only [List.mem_cons, true_or, or_true, and_self]
  · rw [if_neg hpassed, if_neg hpassed]
    refine Moves.commits { p with stage := .rejected, rejectionReason := _ } ?_ rfl rfl rfl
    refine moves_of_keys [eventKey, amendmentIdKey, stageKey, str "rejection_reason",
      str "timestamp", str "governor"] ⟨rfl, by decide, by decide, ?_⟩ ?_ rfl rfl
      (fun h => by cases h)
    · simp only [List.forall_mem_cons]
      exact ⟨trivial, trivial, trivial, trivial, trivial, trivial, List.forall_mem_nil _⟩
    · simp only [List.mem_cons, true_or, or_true, and_self]

theorem commits_simulate (env : Env) (number : Nat) (r : SimulateRequest)
    (hstage : p.stage = .validated) :
    Commits env.stop w (simulate env w e number p r).1 e number p
      (if (simulationResult p r).passed then .simulated else .rejected) := by
  unfold simulate
  rw [if_neg (not_not.mpr hstage)]
  dsimp only
  by_cases hpassed : (simulationResult p r).passed = true
  · rw [if_pos hpassed, if_pos hpassed]
    refine Moves.commits { p with stage := .simulated, simulationId := _ } ?_ rfl rfl rfl
    refine moves_of_keys [eventKey, amendmentIdKey, str "simulation_id", str "passed",
      stageKey, str "hard_invariants_affected", str "soft_invariants_affected", str "timestamp",
      str "governor", str "agent"] ⟨rfl, by decide, by decide, ?_⟩ ?_ rfl rfl
      (fun h => by cases h)
    · simp only [List.forall_mem_cons]
      exact ⟨trivial, trivial, trivial, trivial, trivial, flat_texts _ _, flat_texts _ _, trivial,
        trivial, trivial, List.forall_mem_nil _⟩
    · simp only [List.mem_cons, true_or, or_true, and_self]
  · rw [if_neg hpassed, if_neg hpassed]
    refine Moves.commits { p with stage := .rejected, rejectionReason := _ } ?_ rfl rfl rfl
    refine moves_of_keys [eventKey, amendmentIdKey, str "simulation_id",
      str "rejection_reason", stageKey, str "timestamp", str "governor"]
      ⟨rfl, by decide, by decide, ?_⟩ ?_ rfl rfl
      (fun h => by cases h)
    · simp only [List.forall_mem_cons]
      exact ⟨trivial, trivial, trivial, trivial, trivial, trivial, trivial, List.forall_mem_nil _⟩
    · simp only [List.mem_cons, true_or, or_true, and_self]

theorem commits_queueForRatification (env : Env) (number : Nat) (hstage : p.stage = .simulated) :
    Commits env.stop w (queueForRatification env w e number p).1 e number p .pendingH0 := by
  unfold queueForRatification
  rw [if_neg (not_not.mpr hstage)]
  refine Moves.commits { p with stage := .pendingH0 } ?_ rfl rfl rfl
  refine moves_of_keys [eventKey, amendmentIdKey, str "title", str "target_section",
    str "amendment_class", str "cgvf_score", revertHashKey, str "simulation_id",
    str "human0_signature_slot", stageKey, str "timestamp", str "governor", str "agent",
    str "version", str "instructions"] ⟨rfl, by decide, by decide, ?_⟩ ?_ rfl rfl
      (fun h => by cases h)
  · unfold pendingRecord
    simp only [List.forall_mem_cons]
    exact ⟨trivial, trivial, trivial, trivial, trivial, trivial, flat_textOrNone _ _, trivial,
      trivial, trivial, trivial, trivial, trivial, trivial, trivial, List.forall_mem_nil _⟩
  · simp only [pendingRecord, List.mem_cons, true_or, or_true, and_self]

theorem hasKeys_ratifiedRecord (p : AmendmentProposal P) (human0Signature now : Str) :
    HasKeys (ratifiedRecord p human0Signature now) [eventKey, amendmentIdKey, str "title",
      str "target_section", str "amendment_class", str "cgvf_score", revertHashKey,
      human0SignatureKey, stageKey, str "timestamp", str "governor", str "agent", str "version",
      str "constitutional_compliance"] := by
  refine ⟨rfl, by decide, by decide, ?_⟩
  unfold ratifiedRecord
  simp only [List.forall_mem_cons]
  exact ⟨trivial, trivial, trivial, trivial, trivial, trivial, flat_textOrNone _ _, trivial,
    trivial, trivial, trivial, trivial, trivial, trivial, List.forall_mem_nil _⟩

theorem commits_ratify (env : Env) (number : Nat) {human0Signature : Str}
    (hsignature : strip human0Signature ≠ []) (hstage : p.stage = .pendingH0) :
    Commits env.stop w (ratify env w e number p human0Signature).1 e number p .ratified := by
  unfold ratify
  rw [if_neg hsignature, if_neg (not_not.mpr hstage)]
  refine Moves.commits { p with stage := .ratified, human0Signature := some human0Signature } ?_ rfl
    rfl rfl
  have hkeys := hasKeys_ratifiedRecord p human0Signature (env.times 2)
  refine ⟨hkeys.regular, hkeys.recordOf ?_ ?_, hkeys.get_contentHash, rfl, rfl,
    fun _ => ⟨human0Signature, env.times 2, hsignature, rfl⟩⟩
  · simp only [ratifiedRecord, List.mem_cons, true_or, or_true]
  · simp only [ratifiedRecord, List.mem_cons, true_or, or_true]

theorem commits_reject (env : Env) (number : Nat) (reason : Str) :
    Commits env.stop w (reject env w e number p reason).1 e number p .rejected := by
  unfold reject
  refine Moves.commits { p with stage := .rejected, rejectionReason := some reason } ?_ rfl rfl rfl
  refine moves_of_keys [eventKey, amendmentIdKey, str "rejection_reason", stageKey,
    str "timestamp", str "governor"] ⟨rfl, by decide, by decide, ?_⟩ ?_ rfl rfl
      (fun h => by cases h)
  · simp only [List.forall_mem_cons]
    exact ⟨trivial, trivial, trivial, trivial, trivial, trivial, List.forall_mem_nil _⟩
  · simp only [List.mem_cons, true_or, or_true, and_self]

theorem commits_step (rt : Runtime P) (call : Call P) {number : Nat} {stage : AmendmentStage}
    (hnumber : call.number = some number) (hobject : w.object number = some (e, p))
    (htarget : target rt e p call = some stage) :
    Commits call.stop w (step rt w call) e number p stage := by
  cases call with
  | openEngine hardRegistry => exact nomatch hnumber
  | propose env r => exact nomatch hnumber
  | validate env n score existing =>
    obtain rfl := Option.some.inj hnumber
    obtain rfl := Option.some.inj htarget
    rw [step, onProposal_of_object hobject]
    exact commits_validate env n score existing
  | simulate env n r =>
    obtain rfl := Option.some.inj hnumber
    rw [target, Option.ite_none_right_eq_some] at htarget
    obtain ⟨hstage, htarget⟩ := htarget
    obtain rfl := Option.some.inj htarget
    rw [step, onProposal_of_object hobject]
    exact commits_simulate env n r hstage
  | queueForRatification env n =>
    obtain rfl := Option.some.inj hnumber
    rw [target] at htarget
    split_ifs at htarget with hstage
    obtain rfl := Option.some.inj htarget
    rw [step, onProposal_of_object hobject]
    exact commits_queueForRatification env n hstage
  | ratify env n human0Signature =>
    obtain rfl := Option.some.inj hnumber
    rw [target] at htarget
    split_ifs at htarget with hguard
    obtain rfl := Option.some.inj htarget
    rw [step, onProposal_of_object hobject]
    exact commits_ratify env n hguard.1 hguard.2
  | reject env n reason =>
    obtain rfl := Option.some.inj hnumber
    obtain rfl := Option.some.inj htarget
    rw [step, onProposal_of_object hobject]
    exact commits_reject env n reason

theorem step_of_target_eq_none {call : Call P} {number : Nat} (hnumber : call.number = some number)
    (hobject : w.object number = some (e, p)) (htarget : target rt e p call = none) :
    step rt w call = w := by
  cases call with
  | openEngine hardRegistry => cases hnumber
  | propose env r => cases hnumber
  | validate env n score existing => cases htarget
  | simulate env n r =>
    obtain rfl := Option.some.inj hnumber
    rw [target] at htarget
    split_ifs at htarget with hstage
    rw [step, onProposal_of_object hobject, simulate, if_pos hstage]
  | queueForRatification env n =>
    obtain rfl := Option.some.inj hnumber
    rw [target] at htarget
    split_ifs at htarget with hstage
    rw [step, onProposal_of_object hobject, queueForRatification, if_pos hstage]
  | ratify env n human0Signature =>
    obtain rfl := Option.some.inj hnumber
    rw [target] at htarget
    split_ifs at htarget with hguard
    rw [step, onProposal_of_object hobject, ratify]
    by_cases hsignature : strip human0Signature = []
    · rw [if_pos hsignature]
    · rw [if_neg hsignature, if_pos fun hstage => hguard ⟨hsignature, hstage⟩]
  | reject env n reason => cases htarget

theorem step_of_object_eq_none {call : Call P} {number : Nat} (hnumber : call.number = some number)
    (hobject : w.object number = none) : step rt w call = w := by
  cases call with
  | openEngine hardRegistry => exact nomatch hnumber
  | propose env r => exact nomatch hnumber
  | validate | simulate | queueForRatification | ratify | reject =>
    obtain rfl := Option.some.inj hnumber
    exact onProposal_of_none hobject _

/-! ### Proposals -/

variable (P) in
def contentHash (r : ProposeRequest) : Str :=
  amendmentContentHash (newProposal P r [] [])

/-- The entry that `propose` finds for a request. -/
def World.existing (w : World P) (r : ProposeRequest) : Option (Record P) :=
  loadExistingAmendment P (ledgerFile w.ledger) (contentHash P r)

/-- `propose` makes a new amendment of the request, with this hash of the current text. -/
def ProposesAnew (w : World P) (r : ProposeRequest) (hash : Str) : Prop :=
  minEvidence ≤ r.supportingInvariantIds.length ∧ w.existing r = none ∧
    revertHash P r.currentText = .ok hash

theorem regular_proposedRecord (p : AmendmentProposal P) (hash now : Str) :
    Regular (proposedRecord p hash now) ∧
      (RecordOf (proposedRecord p hash now) p.amendmentId .proposed) := by
  have hkeys : (proposedRecord p hash now).map Prod.fst = [eventKey, amendmentIdKey, str "title",
      str "target_section", str "amendment_class", str "supporting_invariant_ids",
      str "proposed_by", str "proposed_at", revertHashKey, contentHashKey, stageKey,
      str "timestamp", str "governor", str "agent", str "version"].map Key.str := rfl
  have hflat : ∀ m ∈ proposedRecord p hash now, m.2.Flat := by
    unfold proposedRecord
    simp only [List.forall_mem_cons]
    exact ⟨trivial, trivial, trivial, trivial, trivial, flat_texts _ _, trivial, trivial,
      flat_textOrNone _ _, trivial, trivial, trivial, trivial, trivial, trivial,
      List.forall_mem_nil _⟩
  have hregular : Regular (proposedRecord p hash now) := ⟨⟨_, hkeys, by decide, by decide⟩, hflat⟩
  obtain ⟨ks, hks, hnodup, -⟩ := hregular.keys
  have hrecord : ((proposedRecord p hash now).map Prod.fst).Nodup := by
    rw [hks]
    exact hnodup.of_append_left.map fun s t heq => Key.str.inj heq
  refine ⟨hregular, get_eq_some_of_mem hrecord ?_, get_eq_some_of_mem hrecord ?_⟩
  · simp only [proposedRecord, text, List.mem_cons, true_or, or_true]
  · simp only [proposedRecord, text, List.mem_cons, true_or, or_true]

theorem get_contentHash_proposedRecord (p : AmendmentProposal P) (hash now : Str) :
    get (proposedRecord p hash now) contentHashKey = some (.str hash) := by
  obtain ⟨ks, hks, hnodup, -⟩ := (regular_proposedRecord p hash now).1.keys
  refine get_eq_some_of_mem ?_ ?_
  · rw [hks]
    exact hnodup.of_append_left.map fun s t heq => Key.str.inj heq
  · simp only [proposedRecord, text, List.mem_cons, true_or, or_true]

theorem ascii_contentHash (r : ProposeRequest) : ∀ c ∈ contentHash P r, c < 127 :=
  fun c hc => lt_of_isHexDigit (P.isHexDigit_sha256 _ c (List.mem_of_mem_take hc))

/-! ### What a call does -/

/-- What a call does to the world. -/
inductive Effect (rt : Runtime P) (w : World P) : Call P → World P → Prop
  | opened (hardRegistry : List Str) :
    Effect rt w (.openEngine hardRegistry) (openEngine w hardRegistry)
  /-- A call on no object, or one that its guard refuses. -/
  | idle {call : Call P} {number : Nat} (hnumber : call.number = some number)
      (htarget : ∀ e p, w.object number = some (e, p) → target rt e p call = none) :
    Effect rt w call w
  | moved {call : Call P} {number : Nat} {e : Engine P} {p : AmendmentProposal P}
      {stage : AmendmentStage} {w' : World P} (hnumber : call.number = some number)
      (hobject : w.object number = some (e, p)) (htarget : target rt e p call = some stage)
      (hcommits : Commits call.stop w w' e number p stage) :
    Effect rt w call w'
  /-- `propose` raises. -/
  | raised (env : Env) (r : ProposeRequest) (drawn : Nat) (hdrawn : w.drawn ≤ drawn)
      (hagain : w.engine ≠ none → minEvidence ≤ r.supportingInvariantIds.length →
        ∀ existing ∈ w.existing r, existingStage existing = none)
      (hanew : w.engine ≠ none → ∀ hash, ¬ ProposesAnew w r hash) :
    Effect rt w (.propose env r) { w with drawn := drawn }
  /-- `propose` returns another object for what is in the ledger. -/
  | again (env : Env) (r : ProposeRequest) {e : Engine P} {existing : Record P}
      {p : AmendmentProposal P} (he : w.engine = some e)
      (hquorum : minEvidence ≤ r.supportingInvariantIds.length)
      (hexisting : w.existing r = some existing) (hid : p.amendmentId = existingId existing)
      (hstage : existingStage existing = some p.stage) (hrevert : p.revertHash = none) :
    Effect rt w (.propose env r)
      { w with drawn := w.drawn + 1, engine := some { e with proposals := e.proposals ++ [p] } }
  /-- `propose` makes a new amendment. -/
  | anew (env : Env) (r : ProposeRequest) {e e' : Engine P} {p : AmendmentProposal P}
      {record : Record P} {hash : Str} (he : w.engine = some e) (hanew : ProposesAnew w r hash)
      (hid : p.amendmentId = rt.uuid4 w.drawn) (hstage : p.stage = .proposed)
      (hrevert : p.revertHash = some hash) (hregular : Regular record)
      (hrecord : RecordOf record p.amendmentId .proposed)
      (hproposals : e'.proposals = e.proposals ++ [p])
      (hhead : e'.state.chainHeadDigest = e.state.chainHeadDigest) :
    Effect rt w (.propose env r) (commit env
      { w with
        drawn := w.drawn + 1
        currentTexts := w.currentTexts ++ [(rt.uuid4 w.drawn, r.currentText)] } e' record ()).1

def proposalAnew (P : Platform) (r : ProposeRequest) (amendmentId now hash : Str) :
    AmendmentProposal P :=
  { newProposal P r amendmentId now with revertHash := some hash }

theorem step_openEngine (w : World P) (hardRegistry : List Str) :
    step rt w (.openEngine hardRegistry) = openEngine w hardRegistry := rfl

def proposalAgain (r : ProposeRequest) (existing : Record P) (stage : AmendmentStage) (now : Str) :
    AmendmentProposal P :=
  { newProposal P r (existingId existing) now with stage := stage }

theorem step_propose {r : ProposeRequest} (env : Env) (he : w.engine = some e) :
    step rt w (.propose env r) = (propose rt env w e r).1 := by
  rw [step, he]

theorem step_proposeAnew {r : ProposeRequest} {hash : Str} (env : Env) (he : w.engine = some e)
    (h : ProposesAnew w r hash) :
    step rt w (.propose env r) = (commit env
      { w with
        drawn := w.drawn + 1
        currentTexts := w.currentTexts ++ [(rt.uuid4 w.drawn, r.currentText)] }
      { e with
        state := { e.state with
          totalProposed := e.state.totalProposed + 1
          lastAmendmentId := some (rt.uuid4 w.drawn) }
        proposals := e.proposals ++ [proposalAnew P r (rt.uuid4 w.drawn) (env.times 1) hash] }
      (proposedRecord (proposalAnew P r (rt.uuid4 w.drawn) (env.times 1) hash) (contentHash P r)
        (env.times 2)) ()).1 := by
  obtain ⟨hquorum, hexisting, hhash⟩ := h
  have hload : loadExistingAmendment P (ledgerFile w.ledger)
      (amendmentContentHash (newProposal P r (rt.uuid4 w.drawn) (env.times 1))) = none := hexisting
  have hhash' : revertHash P (newProposal P r (rt.uuid4 w.drawn) (env.times 1)).currentText =
      .ok hash := hhash
  rw [step_propose env he, propose, if_neg (Nat.not_lt.mpr hquorum)]
  dsimp only
  rw [hload, hhash']
  dsimp only
  rw [fst_commit]
  rfl

theorem step_proposeAgain (rt : Runtime P) (env : Env) {r : ProposeRequest} {existing : Record P}
    {stage : AmendmentStage} (he : w.engine = some e)
    (hquorum : minEvidence ≤ r.supportingInvariantIds.length)
    (hexisting : w.existing r = some existing) (hstage : existingStage existing = some stage) :
    step rt w (.propose env r) =
      { w with
        drawn := w.drawn + 1
        engine := some { e with
          proposals := e.proposals ++ [proposalAgain r existing stage (env.times 1)] } } := by
  have hload : loadExistingAmendment P (ledgerFile w.ledger)
      (amendmentContentHash (newProposal P r (rt.uuid4 w.drawn) (env.times 1))) = some existing :=
    hexisting
  rw [step_propose env he, propose, if_neg (Nat.not_lt.mpr hquorum)]
  dsimp only
  rw [hload]
  dsimp only
  rw [hstage]
  rfl

theorem effect_propose (env : Env) (r : ProposeRequest) :
    Effect rt w (.propose env r) (step rt w (.propose env r)) := by
  rcases he : w.engine with _ | e
  · have hstep : step rt w (.propose env r) = w := by rw [step, he]
    rw [hstep]
    exact .raised env r w.drawn le_rfl (fun h => absurd he h) (fun h => absurd he h)
  by_cases hanew : ∃ hash, ProposesAnew w r hash
  · obtain ⟨hash, hanew⟩ := hanew
    obtain ⟨hregular, hrecord⟩ := regular_proposedRecord
      (proposalAnew P r (rt.uuid4 w.drawn) (env.times 1) hash) (contentHash P r) (env.times 2)
    rw [step_proposeAnew env he hanew]
    exact .anew env r he hanew rfl rfl rfl hregular hrecord rfl rfl
  have hanew : ∀ hash, ¬ ProposesAnew w r hash := not_exists.mp hanew
  by_cases hagain : minEvidence ≤ r.supportingInvariantIds.length ∧
      ∃ existing stage, w.existing r = some existing ∧ existingStage existing = some stage
  · obtain ⟨hquorum, existing, stage, hexisting, hstage⟩ := hagain
    rw [step_proposeAgain rt env he hquorum hexisting hstage]
    exact .again env r he hquorum hexisting rfl hstage rfl
  have hagain : minEvidence ≤ r.supportingInvariantIds.length →
      ∀ existing ∈ w.existing r, existingStage existing = none := by
    intro hquorum existing hexisting
    rcases hstage : existingStage existing with _ | stage
    · rfl
    · exact absurd ⟨hquorum, existing, stage, hexisting, hstage⟩ hagain
  -- the number may have been drawn
  obtain ⟨drawn, hdrawn, hstep⟩ : ∃ drawn, w.drawn ≤ drawn ∧
      step rt w (.propose env r) = { w with drawn := drawn } := by
    rw [step_propose env he, propose]
    by_cases hquorum : minEvidence ≤ r.supportingInvariantIds.length
    · refine ⟨w.drawn + 1, Nat.le_succ _, ?_⟩
      rw [if_neg (Nat.not_lt.mpr hquorum)]
      dsimp only
      rcases hexisting : w.existing r with _ | existing
      · have hload : loadExistingAmendment P (ledgerFile w.ledger)
            (amendmentContentHash (newProposal P r (rt.uuid4 w.drawn) (env.times 1))) = none :=
          hexisting
        rw [hload]
        dsimp only
        rcases hhash : revertHash P r.currentText with exc | hash
        · have hhash' : revertHash P (newProposal P r (rt.uuid4 w.drawn) (env.times 1)).currentText =
              .error exc := hhash
          rw [hhash']
        · exact absurd ⟨hquorum, hexisting, hhash⟩ (hanew hash)
      · have hload : loadExistingAmendment P (ledgerFile w.ledger)
            (amendmentContentHash (newProposal P r (rt.uuid4 w.drawn) (env.times 1))) =
              some existing := hexisting
        rw [hload]
        dsimp only
        rw [hagain hquorum existing hexisting]
    · refine ⟨w.drawn, le_rfl, ?_⟩
      rw [if_pos (Nat.lt_of_not_le hquorum)]
  rw [hstep]
  exact .raised env r drawn hdrawn (fun _ => hagain) fun _ => hanew

theorem effect_step (rt : Runtime P) (w : World P) (call : Call P) :
    Effect rt w call (step rt w call) := by
  rcases hnumber : call.number with _ | number
  · cases call with
    | openEngine hardRegistry => exact .opened hardRegistry
    | propose env r => exact effect_propose env r
    | validate | simulate | queueForRatification | ratify | reject => exact nomatch hnumber
  · rcases hobject : w.object number with _ | ⟨e, p⟩
    · rw [step_of_object_eq_none hnumber hobject]
      refine .idle hnumber fun e p h => ?_
      exact nomatch hobject.symm.trans h
    · rcases htarget : target rt e p call with _ | stage
      · rw [step_of_target_eq_none hnumber hobject htarget]
        refine .idle hnumber fun e' p' h => ?_
        obtain ⟨rfl, rfl⟩ := Prod.mk.inj (Option.some.inj (hobject.symm.trans h))
        exact htarget
      · exact .moved hnumber hobject htarget (commits_step rt call hnumber hobject htarget)

/-! ### The worlds that calls lead to -/

/-- What is true of every world that calls can lead to. -/
structure Good (rt : Runtime P) (w : World P) : Prop where
  ledger : ∃ as : List (Append P), w.ledger = as.map Append.entry
  head : ∀ e, w.engine = some e → ∀ c ∈ e.state.chainHeadDigest, c < 127
  saved : ∀ s, w.stateFile = some s → ∀ c ∈ s.chainHeadDigest, c < 127
  /-- The amendments of the records have been given a number. -/
  records : ∀ record ∈ w.ledger,
    ∃ n < w.drawn, get record amendmentIdKey = some (.str (rt.uuid4 n))
  objects : ∀ e, w.engine = some e → ∀ p ∈ e.proposals, ∃ n < w.drawn, p.amendmentId = rt.uuid4 n
  /-- Only the first record of an amendment has a content hash. -/
  proposed : ∀ record ∈ w.ledger, get record contentHashKey ≠ none →
    get record stageKey = some (.str AmendmentStage.proposed.value)

theorem good_empty (rt : Runtime P) : Good rt {} where
  ledger := ⟨[], rfl⟩
  head := nofun
  saved := nofun
  records := nofun
  objects := nofun
  proposed := nofun

theorem Good.draw (h : Good rt w) {drawn : Nat} (hdrawn : w.drawn ≤ drawn)
    (currentTexts : List (Str × Str)) :
    Good rt { w with drawn := drawn, currentTexts := currentTexts } where
  ledger := h.ledger
  head := h.head
  saved := h.saved
  records record hrecord := by
    obtain ⟨n, hn, hid⟩ := h.records record hrecord
    exact ⟨n, hn.trans_le hdrawn, hid⟩
  objects e he p hp := by
    obtain ⟨n, hn, hid⟩ := h.objects e he p hp
    exact ⟨n, hn.trans_le hdrawn, hid⟩
  proposed := h.proposed

theorem Good.commit (h : Good rt w) (hhead : ∀ c ∈ e.state.chainHeadDigest, c < 127)
    (hobjects : ∀ p ∈ e.proposals, ∃ n < w.drawn, p.amendmentId = rt.uuid4 n)
    (hregular : Regular record)
    (hid : ∃ n < w.drawn, get record amendmentIdKey = some (.str (rt.uuid4 n)))
    (hproposed : get record contentHashKey ≠ none →
      get record stageKey = some (.str AmendmentStage.proposed.value)) (env : Env) :
    Good rt (commit env w e record ()).1 := by
  let a : Append P := ⟨e.state.chainHeadDigest, record, hhead, hregular⟩
  have hentry : ledgerEntry e.state.chainHeadDigest record = a.entry := rfl
  have hget : ∀ {k : Str}, k ≠ prevDigestKey ∧ k ≠ digestKey → get a.entry k = get record k :=
    fun hk => get_ledgerEntry _ _ hk
  have hdigest : ∀ e', (SelfAmendment.commit env w e record ()).1.engine = some e' →
      ∀ c ∈ e'.state.chainHeadDigest, c < 127 := by
    intro e' he'
    rw [(engine_commit env w e record () he').2]
    exact ascii_hmacDigest _
  refine ⟨?_, hdigest, fun s hs => ?_, fun x hx => ?_, fun e' he' p hp => ?_, fun x hx hx' => ?_⟩
  · obtain ⟨as, has⟩ := h.ledger
    refine ⟨as ++ [a], ?_⟩
    rw [ledger_commit, has, List.map_append]
    rfl
  · rcases stateFile_commit env w e record () hs with hs | ⟨e', he', rfl⟩
    · exact h.saved s hs
    · exact hdigest e' he'
  · rw [ledger_commit, List.mem_append, List.mem_singleton] at hx
    rw [drawn_commit]
    rcases hx with hx | rfl
    · exact h.records x hx
    · rw [hentry, hget (by decide)]
      exact hid
  · rw [(engine_commit env w e record () he').1] at hp
    rw [drawn_commit]
    exact hobjects p hp
  · rw [ledger_commit, List.mem_append, List.mem_singleton] at hx
    rcases hx with hx | rfl
    · exact h.proposed x hx hx'
    · rw [hentry, hget (by decide)] at hx' ⊢
      exact hproposed hx'

theorem Good.existing (h : Good rt w) {r : ProposeRequest} {existing : Record P}
    (hexisting : w.existing r = some existing) :
    existingStage existing = some .proposed ∧
      ∃ n < w.drawn, existingId existing = rt.uuid4 n := by
  obtain ⟨as, has⟩ := h.ledger
  unfold World.existing at hexisting
  rw [has] at hexisting
  obtain ⟨a, ha, rfl, hhash⟩ := exists_of_loadExistingAmendment as hexisting
  have hmem : a.entry ∈ w.ledger := has ▸ List.mem_map_of_mem ha
  have hstage := h.proposed a.entry hmem fun hnone => by
    rw [get_readItems, hnone] at hhash
    exact nomatch hhash
  obtain ⟨n, hn, hid⟩ := h.records a.entry hmem
  constructor
  · have hread : readAscii AmendmentStage.proposed.value = AmendmentStage.proposed.value :=
      readAscii_of_printable (by decide)
    unfold existingStage
    rw [get_readItems, hstage, Option.map_some, Option.getD_some, Value.mapStr, hread]
    rfl
  · refine ⟨n, hn, ?_⟩
    unfold existingId
    rw [get_readItems, hid, Option.map_some, Value.mapStr, readAscii_of_printable (rt.uuid4_ascii n)]

theorem good_openEngine (h : Good rt w) (hardRegistry : List Str) :
    Good rt (openEngine w hardRegistry) where
  ledger := h.ledger
  head e he := by
    obtain rfl := Option.some.inj he
    show ∀ c ∈ (w.stateFile.getD {}).chainHeadDigest, c < 127
    rcases hs : w.stateFile with _ | s
    · decide
    · exact h.saved s hs
  saved := h.saved
  records := h.records
  objects e he p hp := by
    obtain rfl := Option.some.inj he
    exact nomatch hp
  proposed := h.proposed

theorem Commits.good {stop : Option Stop} {w' : World P} {number : Nat} {stage : AmendmentStage}
    (h : Good rt w) (hobject : w.object number = some (e, p))
    (hcommits : Commits stop w w' e number p stage) : Good rt w' := by
  obtain ⟨env, e', p', record, -, hmoves, -, hproposals, hhead, rfl⟩ := hcommits
  obtain ⟨he, hp⟩ := object_eq_some.mp hobject
  obtain ⟨n, hn, hid⟩ := h.objects e he p (List.mem_of_getElem? hp)
  refine h.commit ?_ ?_ hmoves.regular ⟨n, hn, hid ▸ hmoves.recordOf.1⟩ ?_ env
  · rw [hhead]
    exact h.head e he
  · intro q hq
    rw [hproposals] at hq
    rcases List.mem_or_eq_of_mem_set hq with hq | rfl
    · exact h.objects e he q hq
    · exact ⟨n, hn, hmoves.amendmentId_eq.trans hid⟩
  · exact fun hne => absurd hmoves.contentHash hne

theorem Effect.good {call : Call P} {w' : World P} (heffect : Effect rt w call w')
    (h : Good rt w) : Good rt w' := by
  have hsucc := Nat.le_succ w.drawn
  cases heffect with
  | opened hardRegistry => exact good_openEngine h hardRegistry
  | idle => exact h
  | moved _ hobject _ hcommits => exact hcommits.good h hobject
  | raised env r drawn hdrawn => exact h.draw hdrawn w.currentTexts
  | @again env r e existing p he _ hexisting hid =>
    have hdraw := h.draw hsucc w.currentTexts
    obtain ⟨-, n, hn, hn'⟩ := h.existing hexisting
    refine ⟨hdraw.ledger, fun e' he' => ?_, hdraw.saved, hdraw.records, fun e' he' q hq => ?_,
      hdraw.proposed⟩
    · obtain rfl := Option.some.inj he'
      exact h.head e he
    · obtain rfl := Option.some.inj he'
      rcases List.mem_append.mp hq with hq | hq
      · exact hdraw.objects e he q hq
      · rw [List.mem_singleton.mp hq]
        exact ⟨n, Nat.lt_succ_of_lt hn, hid.trans hn'⟩
  | @anew env r e e' p record hash he _ hid _ _ hregular hrecord hproposals hhead =>
    refine (h.draw hsucc _).commit ?_ ?_ hregular ⟨w.drawn, Nat.lt_succ_self _, hid ▸ hrecord.1⟩
      (fun _ => hrecord.2) env
    · rw [hhead]
      exact h.head e he
    · intro q hq
      rw [hproposals, List.mem_append, List.mem_singleton] at hq
      rcases hq with hq | rfl
      · exact (h.draw hsucc []).objects e he q hq
      · exact ⟨w.drawn, Nat.lt_succ_self _, hid⟩

theorem exists_existing_propose {r : ProposeRequest} {hash : Str} (env : Env) (hw : Good rt w)
    (he : w.engine = some e) (hanew : ProposesAnew w r hash) :
    ∃ existing, (step rt w (.propose env r)).existing r = some existing := by
  obtain ⟨as, has⟩ := hw.ledger
  let a : Append P := ⟨e.state.chainHeadDigest,
    proposedRecord (proposalAnew P r (rt.uuid4 w.drawn) (env.times 1) hash) (contentHash P r)
      (env.times 2), hw.head e he, (regular_proposedRecord _ _ _).1⟩
  have hledger : (step rt w (.propose env r)).ledger = (as ++ [a]).map Append.entry := by
    rw [step_proposeAnew env he hanew, ledger_commit, has, List.map_append]
    rfl
  unfold World.existing
  rw [hledger]
  refine exists_loadExistingAmendment (List.mem_append_right _ (List.mem_singleton_self a)) ?_
  rw [get_readItems, Append.entry, get_ledgerEntry _ _ (by decide),
    get_contentHash_proposedRecord, Option.map_some, Value.mapStr,
    readAscii_of_printable (ascii_contentHash r)]

theorem good_step (w : World P) (call : Call P) (h : Good rt w) : Good rt (step rt w call) :=
  (effect_step rt w call).good h

/-! ### A concrete runtime -/

/-- A runtime whose identifiers are the digits of a UUID and more of them. -/
def sampleRuntime : Runtime reference where
  uuid4 n := str "00000000-0000-4000-8000-000000000000" ++ List.replicate n 48
  uuid4_injective m n h := by
    simpa using congrArg List.length h
  uuid4_ascii n c hc := by
    have hprefix : ∀ c ∈ str "00000000-0000-4000-8000-000000000000", c < 127 := by decide
    rcases List.mem_append.mp hc with hc | hc
    · exact hprefix c hc
    · rw [List.eq_of_mem_replicate hc]
      decide
  formatScore _ := []

def sampleRequest (title : Str) : ProposeRequest where
  title := title
  targetSection := []
  proposedText := []
  currentText := []
  amendmentClass := .soft
  supportingInvariantIds := [str "A-0", str "B-0", str "C-0"]
  proposedBy := str "DEVADAAD"

def sampleEnv (stop : Option Stop) : Env where
  times _ := str "2026-01-01T00:00:00Z"
  stop := stop

end Adaad.SelfAmendment

/-!
## The chain of the amendment ledger

`_verify_chain` accepts the ledger in every world of a run exactly when no record is appended while
the head that the engine holds is another than the digest of the last record (`accepted_run_iff`).
An engine that is opened after a process stopped before the state file was written holds such a
head: the next record breaks the chain (`not_accepted_run`).
-/

namespace Adaad.SelfAmendment

open Py Run

variable {P : Platform} {rt : Runtime P} {w : World P}

/-- The digest of the last record, or the one that the first record is chained to. -/
def lastDigest (ledger : List (Record P)) : Str :=
  match ledger.getLast? with
  | none => genesisDigest
  | some entry =>
    match get entry digestKey with
    | some (.str s) => s
    | _ => []

/-- The call gets as far as appending a record. -/
def Writes (rt : Runtime P) (w : World P) (call : Call P) : Prop :=
  (∃ env r hash, call = .propose env r ∧ ProposesAnew w r hash) ∨
    ∃ number e p stage, call.number = some number ∧ w.object number = some (e, p) ∧
      target rt e p call = some stage

/-- A call that appends a record does it with the digest of the last record as the head. -/
def HeadCurrent (rt : Runtime P) (w : World P) (call : Call P) : Prop :=
  ∀ e, w.engine = some e → Writes rt w call → e.state.chainHeadDigest = lastDigest w.ledger

theorem lastDigest_eq_tail (as : List (Append P)) :
    lastDigest (as.map Append.entry) = (chainFormat P).tail genesisDigest as := by
  rcases List.eq_nil_or_concat as with rfl | ⟨as, a, rfl⟩
  · rfl
  · unfold lastDigest
    rw [List.concat_eq_append, List.map_append, List.map_singleton, List.getLast?_concat,
      Chain.Format.tail_concat]
    dsimp only
    rw [a.get_entry_digest]
    rfl

theorem accepted_commit_iff {e : Engine P} {record : Record P} (hw : Good rt w)
    (hhead : ∀ c ∈ e.state.chainHeadDigest, c < 127) (hregular : Regular record)
    (haccepted : Accepted P (ledgerFile w.ledger)) (env : Env) :
    Accepted P (ledgerFile (commit env w e record ()).1.ledger) ↔
      e.state.chainHeadDigest = lastDigest w.ledger := by
  obtain ⟨as, has⟩ := hw.ledger
  let a : Append P := ⟨e.state.chainHeadDigest, record, hhead, hregular⟩
  have hledger : (commit env w e record ()).1.ledger = (as ++ [a]).map Append.entry := by
    rw [ledger_commit, has, List.map_append]
    rfl
  rw [has, accepted_iff] at haccepted
  rw [hledger, accepted_iff, Chain.Format.valid_concat, and_iff_right haccepted, links_iff, has,
    lastDigest_eq_tail]

theorem accepted_step_iff (w : World P) (call : Call P) (hw : Good rt w)
    (haccepted : Accepted P (ledgerFile w.ledger)) :
    Accepted P (ledgerFile (step rt w call).ledger) ↔ HeadCurrent rt w call := by
  have heffect := effect_step rt w call
  generalize step rt w call = w' at heffect
  cases heffect with
  | opened hardRegistry =>
    refine iff_of_true haccepted fun e _ hwrites => ?_
    rcases hwrites with ⟨env, r, hash, hcall, -⟩ | ⟨number, e, p, stage, hnumber, -⟩
    · exact nomatch hcall
    · exact nomatch hnumber
  | @idle _ number hnumber htarget =>
    refine iff_of_true haccepted fun e _ hwrites => ?_
    rcases hwrites with ⟨env, r, hash, rfl, -⟩ | ⟨number', e', p, stage, hnumber', hobject, hstage⟩
    · exact nomatch hnumber
    · obtain rfl := Option.some.inj (hnumber.symm.trans hnumber')
      exact nomatch (htarget e' p hobject).symm.trans hstage
  | @moved _ number e p stage _ hnumber hobject htarget hcommits =>
    obtain ⟨env, e', p', record, -, hmoves, -, -, hhead, rfl⟩ := hcommits
    obtain ⟨he, -⟩ := object_eq_some.mp hobject
    rw [accepted_commit_iff hw (hhead ▸ hw.head e he) hmoves.regular haccepted env, hhead]
    constructor
    · intro heq e'' he'' _
      obtain rfl := Option.some.inj (he.symm.trans he'')
      exact heq
    · exact fun h => h e he (.inr ⟨number, e, p, stage, hnumber, hobject, htarget⟩)
  | raised env r drawn hdrawn hagain hanew =>
    refine iff_of_true haccepted fun e he hwrites => ?_
    have hengine : w.engine ≠ none := by
      rw [he]
      exact Option.some_ne_none e
    rcases hwrites with ⟨env', r', hash, hcall, h⟩ | ⟨number, e, p, stage, hnumber, -⟩
    · obtain ⟨rfl, rfl⟩ := Call.propose.inj hcall
      exact absurd h (hanew hengine hash)
    · exact nomatch hnumber
  | again env r he hquorum hexisting hid hstage hrevert =>
    refine iff_of_true haccepted fun e he hwrites => ?_
    rcases hwrites with ⟨env', r', hash, hcall, h⟩ | ⟨number, e, p, stage, hnumber, -⟩
    · obtain ⟨rfl, rfl⟩ := Call.propose.inj hcall
      exact nomatch h.2.1.symm.trans hexisting
    · exact nomatch hnumber
  | @anew env r e e' p record hash he hanew _ _ _ hregular _ _ hhead =>
    rw [accepted_commit_iff (hw.draw (Nat.le_succ _) _) (hhead ▸ hw.head e he) hregular haccepted
      env, hhead]
    constructor
    · intro heq e'' he'' _
      obtain rfl := Option.some.inj (he.symm.trans he'')
      exact heq
    · exact fun h => h e he (.inl ⟨env, r, hash, rfl, hanew⟩)

/-- In every run on new files, with processes that stop between the append and the end of the save
and engines that are opened on the same files, `_verify_chain` accepts the ledger of every world
exactly when every record is appended with the digest of the last one as the head. -/
theorem accepted_run_iff (rt : Runtime P) (calls : List (Call P)) :
    Always (step rt) (fun w => Accepted P (ledgerFile w.ledger)) {} calls ↔
      Meets (step rt) (HeadCurrent rt) {} calls :=
  always_iff_meets_of_invariant good_step accepted_step_iff (good_empty rt) ⟨_, rfl, rfl⟩

/-! ### A stop before the save -/

/-- The first process stops before it saves its state; the second proposes something else. -/
def stoppedRun : List (Call reference) :=
  [.openEngine [], .propose (sampleEnv (some .beforeSave)) (sampleRequest (str "a")),
    .openEngine [], .propose (sampleEnv none) (sampleRequest (str "b"))]

/-- The record that the first process appends. -/
def stoppedRecord : Record reference :=
  proposedRecord (proposalAnew reference (sampleRequest (str "a"))
    (sampleRuntime.uuid4 0) ((sampleEnv none).times 1) (reference.sha256 []))
    (contentHash reference (sampleRequest (str "a"))) ((sampleEnv none).times 2)

theorem regular_stoppedRecord : Regular stoppedRecord :=
  (regular_proposedRecord _ _ _).1

def stoppedAppend : Append reference :=
  ⟨genesisDigest, stoppedRecord, by decide, regular_stoppedRecord⟩

theorem digest_stoppedAppend : stoppedAppend.digest ≠ genesisDigest := by
  decide +kernel

theorem contentHash_ne : contentHash reference (sampleRequest (str "a")) ≠
    contentHash reference (sampleRequest (str "b")) := by
  decide +kernel

theorem step_stopped : step sampleRuntime (openEngine {} [])
      (.propose (sampleEnv (some .beforeSave)) (sampleRequest (str "a"))) =
    { ledger := [stoppedAppend.entry]
      drawn := 1
      currentTexts := [(sampleRuntime.uuid4 0, [])] } := by
  have hanew : ProposesAnew (openEngine ({} : World reference) []) (sampleRequest (str "a"))
      (reference.sha256 []) := ⟨by decide, rfl, rfl⟩
  rw [step_proposeAnew _ rfl hanew]
  rfl

def reopened : World reference :=
  openEngine { ledger := [stoppedAppend.entry]
               drawn := 1
               currentTexts := [(sampleRuntime.uuid4 0, [])] } []

theorem existing_reopened : reopened.existing (sampleRequest (str "b")) = none := by
  rcases hexisting : reopened.existing (sampleRequest (str "b")) with _ | existing
  · rfl
  · -- the ledger holds another content hash only
    obtain ⟨a, ha, rfl, hhash⟩ :=
      exists_of_loadExistingAmendment [stoppedAppend] hexisting
    rw [List.mem_singleton.mp ha, get_readItems] at hhash
    have hget : get stoppedAppend.entry contentHashKey =
        some (.str (contentHash reference (sampleRequest (str "a")))) :=
      (get_ledgerEntry _ _ (by decide)).trans (get_contentHash_proposedRecord _ _ _)
    rw [hget, Option.map_some, Value.mapStr] at hhash
    rw [readAscii_of_printable (ascii_contentHash _)] at hhash
    exact absurd (Value.str.inj (Option.some.inj hhash)) contentHash_ne

/-- After the second process has appended its record, `_verify_chain` does not accept the ledger. -/
theorem not_accepted_run : ¬ Accepted reference
    (ledgerFile (run (step sampleRuntime) {} stoppedRun).ledger) := by
  have hgood : Good sampleRuntime reopened := by
    have h := good_openEngine (good_step _ (.propose (sampleEnv (some .beforeSave))
      (sampleRequest (str "a"))) (good_openEngine (good_empty sampleRuntime) [])) []
    rw [step_stopped] at h
    exact h
  have haccepted : Accepted reference (ledgerFile reopened.ledger) := by
    refine (accepted_iff [stoppedAppend]).mpr ?_
    exact ⟨links_iff.mpr rfl, trivial⟩
  have hrun : run (step sampleRuntime) {} stoppedRun =
      step sampleRuntime reopened (.propose (sampleEnv none) (sampleRequest (str "b"))) := by
    rw [stoppedRun, run_cons, run_cons, run_cons, run_cons, run_nil, step_openEngine, step_openEngine,
      step_stopped, reopened]
  rw [hrun, accepted_step_iff reopened _ hgood haccepted]
  intro hcurrent
  have hanew : ProposesAnew reopened (sampleRequest (str "b")) (reference.sha256 []) :=
    ⟨by decide, existing_reopened, rfl⟩
  have hhead : genesisDigest = lastDigest reopened.ledger :=
    hcurrent ⟨{}, [], []⟩ rfl (.inl ⟨_, _, _, rfl, hanew⟩)
  have hlast : lastDigest reopened.ledger = stoppedAppend.digest :=
    lastDigest_eq_tail [stoppedAppend]
  exact digest_stoppedAppend (hhead.trans hlast).symm

end Adaad.SelfAmendment
