import Adaad.Dorkllm.Equiv.ConsensusRounds

/-!
# The calls of the consensus engine

Each call writes events that the book of its ledger admits, and leaves the rounds in memory as they
tell (`Kept`).  Two calls do so only under a condition: `human0_override` and `close_round`, of a round
that the ledger has a veto of.
-/

namespace Adaad.MutationConsensus

open Py Run

variable {P : Platform} {c : Config} {env : Env P} {b : Book P} {roundId : Str}

/-! ### Open rounds -/

theorem getOpenRound_eq_ok {rounds : Rounds P} {r : ConsensusRound P} :
    getOpenRound rounds roundId = .ok r ↔ rounds.lookup roundId = some r ∧ r.status = .open := by
  unfold getOpenRound
  cases hlookup : rounds.lookup roundId with
  | none => exact iff_of_false (fun h => by cases h) fun h => by cases h.1
  | some r' =>
    dsimp only
    by_cases hclosed : r'.status = .closed
    · rw [if_pos hclosed]
      refine iff_of_false (fun h => by cases h) fun h => ?_
      obtain rfl := Option.some.inj h.1
      exact absurd (h.2.symm.trans hclosed) (by decide)
    · rw [if_neg hclosed]
      constructor
      · intro h
        obtain rfl := Except.ok.inj h
        refine ⟨rfl, ?_⟩
        cases hstatus : r'.status with
        | «open» => rfl
        | closed => exact absurd hstatus hclosed
      · exact fun h => congrArg Except.ok (Option.some.inj h.1)

/-! ### Attempts -/

/-- The events of the attempt are admitted, and the rounds in memory are what they tell. -/
structure Kept (c : Config) (fresh : Str) (b : Book P) (a : Attempt P) : Prop where
  admitted : Meets Book.tell (Book.Admits c fresh) b a.writes
  rounds : (run Book.tell b a.writes).rounds = a.rounds

theorem kept_raise (e : CMCEError) {fresh : Str} : Kept c fresh b (raise b.rounds e) :=
  ⟨trivial, rfl⟩

theorem kept_openRound (hnew : env.uuid4 ∉ Assoc.keys b.rounds) (hascii : ∀ x ∈ env.uuid4, x < 128)
    {mutationId intentDeclarationId : Str} {scopePaths : List Str} {proposer : Str}
    (htexts : scopePaths ≠ [] → Stays mutationId ∧ Stays intentDeclarationId ∧
      (∀ path ∈ scopePaths, Stays path) ∧ Stays proposer) :
    Kept c env.uuid4 b
      (openRound c env b.rounds mutationId intentDeclarationId scopePaths proposer) := by
  unfold openRound
  by_cases hscope : scopePaths = []
  · rw [if_pos hscope]
    exact kept_raise _
  · obtain ⟨hmutation, hintent, hpaths, hproposer⟩ := htexts hscope
    rw [if_neg hscope]
    refine ⟨⟨⟨rfl, hnew, ⟨stays_of_ascii hascii, hmutation, hintent, hpaths, hproposer, rfl, rfl, ?_⟩,
      rfl, rfl⟩, trivial⟩, rfl⟩
    exact fun action ha => by cases ha

theorem kept_castVote (hascii : ∀ x ∈ env.uuid4, x < 128) {agent rationale : Str}
    {vote : VoteType}
    (htexts : agent ∉ human0Identifiers → agent ∈ c.registeredAgents → ∀ r, b.Open roundId r →
      agent ∉ Assoc.keys r.votes → Stays agent ∧ Stays rationale) :
    Kept c env.uuid4 b (castVote c env b.rounds roundId agent vote rationale) := by
  unfold castVote
  by_cases hhuman : agent ∈ human0Identifiers
  · rw [if_pos hhuman]
    exact kept_raise _
  rw [if_neg hhuman]
  cases hround : getOpenRound b.rounds roundId with
  | error e => exact kept_raise e
  | ok r =>
    have hopen := getOpenRound_eq_ok.mp hround
    dsimp only
    by_cases hregistered : agent ∈ c.registeredAgents
    · by_cases hvoted : agent ∈ Assoc.keys r.votes
      · rw [if_neg (not_not.mpr hregistered), if_pos hvoted]
        exact kept_raise _
      · obtain ⟨hagent, hrationale⟩ := htexts hhuman hregistered r hopen hvoted
        rw [if_neg (not_not.mpr hregistered), if_neg hvoted]
        refine ⟨⟨⟨⟨r, hopen⟩, hregistered, hagent, hrationale, stays_of_ascii hascii⟩, trivial⟩, ?_⟩
        exact apply_voteCast hopen.1 _ false
    · rw [if_pos hregistered]
      exact kept_raise _

theorem ascii_of_resolutionOf {resolution : Str} {vote : VoteType}
    (h : resolutionOf resolution = some vote) : ∀ x ∈ resolution, x < 128 := by
  unfold resolutionOf at h
  by_cases happrove : resolution = str "APPROVE"
  · rw [happrove]
    decide
  by_cases hreject : resolution = str "REJECT"
  · rw [hreject]
    decide
  · rw [if_neg happrove, if_neg hreject] at h
    cases h

theorem kept_resolveChallenge (h : Sound c b) (hascii : ∀ x ∈ env.uuid4, x < 128)
    {challengingAgent resolution : Str} :
    Kept c env.uuid4 b (resolveChallenge env b.rounds roundId challengingAgent resolution) := by
  unfold resolveChallenge
  cases hround : getOpenRound b.rounds roundId with
  | error e => exact kept_raise e
  | ok r =>
    have hopen := getOpenRound_eq_ok.mp hround
    have hvoters := (h.round roundId r hopen.1).voters
    dsimp only
    cases hexisting : r.votes.lookup challengingAgent with
    | none => exact kept_raise _
    | some existing =>
      have hmem := Assoc.mem_of_lookup hexisting
      dsimp only
      by_cases hchallenge : existing.vote = .challenge
      · rw [if_neg (not_not.mpr hchallenge)]
        cases hvote : resolutionOf resolution with
        | none => exact kept_raise _
        | some vote =>
          refine ⟨⟨⟨⟨r, hopen⟩, hvoters.registered _ hmem, hvoters.stays _ hmem, ?_,
            stays_of_ascii hascii⟩, trivial⟩, apply_voteCast hopen.1 _ true⟩
          exact stays_of_ascii (List.forall_mem_append.mpr
            ⟨by decide, ascii_of_resolutionOf hvote⟩)
      · rw [if_pos hchallenge]
        exact kept_raise _

theorem kept_closeAttempt (h : Sound c b) {r : ConsensusRound P} (hopen : b.Open roundId r)
    {fresh : Str} (hchallenged : r.evaluate.1 ≠ .challenged)
    (hpassed : r.evaluate.1 = .passed → Passing c r)
    (hvetoed : b.vetoed roundId → r.human0Action ≠ some override) :
    Kept c fresh b (closeAttempt env b.rounds roundId r) := by
  obtain rfl := (h.round roundId r hopen.1).roundId_eq
  exact ⟨⟨⟨r, env.time 0, hopen, rfl, hchallenged, hpassed, hvetoed⟩, trivial⟩,
    apply_roundClosed hopen.1 _⟩

theorem kept_closeRound (h : Sound c b) {fresh : Str}
    (hvetoed : ∀ r, b.Open roundId r → b.vetoed roundId → r.human0Action ≠ some override) :
    Kept c fresh b (closeRound c env b.rounds roundId) := by
  unfold closeRound
  cases hround : getOpenRound b.rounds roundId with
  | error e => exact kept_raise e
  | ok r =>
    have hopen := getOpenRound_eq_ok.mp hround
    have hsound := h.round roundId r hopen.1
    dsimp only
    by_cases hacted : r.human0Action = some veto ∨ r.human0Action = some override
    · have houtcome : r.evaluate.1 = .blocked ∨ r.evaluate.1 = .override :=
        hacted.imp ConsensusRound.evaluate_of_veto ConsensusRound.evaluate_of_override
      rw [if_pos hacted]
      refine kept_closeAttempt h hopen (fun heq => ?_) (fun heq => ?_) (hvetoed r hopen)
      · rw [heq] at houtcome
        exact absurd houtcome (by decide)
      · rw [heq] at houtcome
        exact absurd houtcome (by decide)
    rw [if_neg hacted]
    by_cases hmissing : r.missing c = []
    · rw [if_neg (not_not.mpr hmissing)]
      have hnone : r.human0Action.getD [] = [] := by
        cases haction : r.human0Action with
        | none => rfl
        | some action =>
          have := hsound.action action haction
          rw [haction] at hacted
          exact absurd (this.imp (congrArg some) (congrArg some)) hacted
      by_cases hchallenged : r.evaluate.1 = .challenged
      · rw [if_pos ⟨hchallenged, hnone⟩]
        exact kept_raise _
      · rw [if_neg fun hboth => hchallenged hboth.1]
        exact kept_closeAttempt h hopen hchallenged
          (ConsensusRound.passing_of_evaluate hsound.voters hmissing) (hvetoed r hopen)
    · rw [if_pos hmissing]
      exact kept_raise _

def ConsensusRound.acted (r : ConsensusRound P) (action : Str) : ConsensusRound P :=
  { r with human0Action := some action }

theorem human0Act_of_open {r : ConsensusRound P} (hopen : b.Open roundId r) (action reason : Str) :
    human0Act action env b.rounds roundId reason =
      ⟨.ok (.round ((r.acted action).closing (env.time 1))),
        Assoc.set b.rounds roundId ((r.acted action).closing (env.time 1)),
        [⟨.human0Action roundId action reason, env.time 0⟩,
          ⟨.roundClosed ((r.acted action).closing (env.time 1)), env.time 2⟩]⟩ := by
  unfold human0Act
  rw [getOpenRound_eq_ok.mpr hopen]
  rfl

theorem open_acted {r : ConsensusRound P} (hopen : b.Open roundId r) (action reason : Str)
    (timestamp : P.Float) :
    (b.tell ⟨.human0Action roundId action reason, timestamp⟩).Open roundId (r.acted action) := by
  refine ⟨?_, hopen.2⟩
  show ((Event.human0Action roundId action reason).apply b.rounds).lookup roundId = _
  rw [apply_human0Action hopen.1, Assoc.lookup_set, if_pos rfl]
  rfl

theorem kept_human0Act (h : Sound c b) {action reason fresh : Str}
    (haction : action = veto ∨ action = override)
    (hvetoed : (∃ r, b.Open roundId r) → b.vetoed roundId → action ≠ override) :
    Kept c fresh b (human0Act action env b.rounds roundId reason) := by
  cases hround : getOpenRound b.rounds roundId with
  | error e =>
    unfold human0Act
    rw [hround]
    exact kept_raise e
  | ok r =>
    have hopen := getOpenRound_eq_ok.mp hround
    obtain rfl := (h.round roundId r hopen.1).roundId_eq
    have hopen' := open_acted hopen action reason (env.time 0)
    have houtcome : (r.acted action).evaluate.1 = .blocked ∨
        (r.acted action).evaluate.1 = .override :=
      haction.imp (fun heq => ConsensusRound.evaluate_of_veto (congrArg some heq))
        fun heq => ConsensusRound.evaluate_of_override (congrArg some heq)
    rw [human0Act_of_open hopen]
    refine ⟨⟨⟨⟨r, hopen⟩, haction⟩, ⟨r.acted action, env.time 1, hopen', rfl, fun heq => ?_,
      fun heq => ?_, fun hv => ?_⟩, trivial⟩, ?_⟩
    · have heq : (r.acted action).evaluate.1 = .challenged := heq
      rw [heq] at houtcome
      exact absurd houtcome (by decide)
    · have heq : (r.acted action).evaluate.1 = .passed := heq
      rw [heq] at houtcome
      exact absurd houtcome (by decide)
    · intro hoverride
      have hoverride : action = override := Option.some.inj hoverride
      rcases hv with hv | hv
      · exact hvetoed ⟨r, hopen⟩ hv hoverride
      · exact absurd ((vetoes_iff.mp hv).2.symm.trans hoverride) (by decide)
    · show ((Event.roundClosed ((r.acted action).closing (env.time 1))).apply
        ((Event.human0Action r.roundId action reason).apply b.rounds)) = _
      rw [apply_roundClosed hopen'.1, apply_human0Action hopen.1]
      exact Assoc.set_set _ _ _ _

/-! ### Calls that write nothing -/

/-- An attempt that writes nothing changes no round. -/
def Quiet (rounds : Rounds P) (a : Attempt P) : Prop :=
  a.writes = [] → a.rounds = rounds

theorem quiet_raise {rounds : Rounds P} (e : CMCEError) : Quiet rounds (raise rounds e) :=
  fun _ => rfl

theorem quiet_of_cons {rounds : Rounds P} {a : Attempt P} {w : Write P} {ws : List (Write P)}
    (h : a.writes = w :: ws) : Quiet rounds a := by
  intro hnil
  rw [h] at hnil
  cases hnil

theorem quiet_closeRound (rounds : Rounds P) : Quiet rounds (closeRound c env rounds roundId) := by
  unfold closeRound
  cases getOpenRound rounds roundId with
  | error e => exact quiet_raise e
  | ok r =>
    dsimp only
    split_ifs
    · exact quiet_of_cons rfl
    · exact quiet_raise _
    · exact quiet_raise _
    · exact quiet_of_cons rfl

theorem quiet_human0Act (rounds : Rounds P) (action reason : Str) :
    Quiet rounds (human0Act action env rounds roundId reason) := by
  unfold human0Act
  cases getOpenRound rounds roundId with
  | error e => exact quiet_raise e
  | ok r => exact quiet_of_cons rfl

theorem quiet_castVote (rounds : Rounds P) (agent : Str) (vote : VoteType) (rationale : Str) :
    Quiet rounds (castVote c env rounds roundId agent vote rationale) := by
  unfold castVote
  by_cases hhuman : agent ∈ human0Identifiers
  · rw [if_pos hhuman]
    exact quiet_raise _
  rw [if_neg hhuman]
  cases getOpenRound rounds roundId with
  | error e => exact quiet_raise e
  | ok r =>
    dsimp only
    by_cases hregistered : agent ∈ c.registeredAgents
    · rw [if_neg (not_not.mpr hregistered)]
      split_ifs
      · exact quiet_raise _
      · exact quiet_of_cons rfl
    · rw [if_pos hregistered]
      exact quiet_raise _

theorem quiet_resolveChallenge (rounds : Rounds P) (challengingAgent resolution : Str) :
    Quiet rounds (resolveChallenge env rounds roundId challengingAgent resolution) := by
  unfold resolveChallenge
  cases getOpenRound rounds roundId with
  | error e => exact quiet_raise e
  | ok r =>
    dsimp only
    cases r.votes.lookup challengingAgent with
    | none => exact quiet_raise _
    | some existing =>
      dsimp only
      split_ifs
      · exact quiet_raise _
      · cases resolutionOf resolution with
        | none => exact quiet_raise _
        | some vote => exact quiet_of_cons rfl

theorem quiet_attempt (rounds : Rounds P) (request : Request) :
    Quiet rounds (request.attempt c env rounds) := by
  cases request with
  | openRound mutationId intentDeclarationId scopePaths proposer =>
    unfold Request.attempt MutationConsensus.openRound
    dsimp only
    split_ifs
    · exact quiet_raise _
    · exact quiet_of_cons rfl
  | castVote roundId agent vote rationale => exact quiet_castVote rounds agent vote rationale
  | resolveChallenge roundId challengingAgent resolution =>
    exact quiet_resolveChallenge rounds challengingAgent resolution
  | closeRound roundId => exact quiet_closeRound rounds
  | human0Veto roundId reason => exact quiet_human0Act rounds veto reason
  | human0Override roundId reason => exact quiet_human0Act rounds override reason

end Adaad.MutationConsensus
