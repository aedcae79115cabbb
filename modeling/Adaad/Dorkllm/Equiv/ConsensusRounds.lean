import Adaad.Dorkllm.Equiv.ConsensusLedger
import Adaad.Run

/-!
# What the events of a ledger keep

The rounds that a ledger tells of, and those with a veto, are a `Book`.  Each event that a call writes
is one that the book `Admits`: it is about a round that is open, and a closing has the outcome that
the round is evaluated to.  Such events keep a book `Sound`: a round is passed only with the votes of
all agents, and none with a veto is passed.  They change no round that is closed.
-/

namespace Adaad.MutationConsensus

open Py Innovations Run

variable {P : Platform} {c : Config}

/-! ### Passing -/

/-- Every registered agent has voted, as many as are required approve and none challenges. -/
structure Passing (c : Config) (r : ConsensusRound P) : Prop where
  voted : ∀ agent ∈ c.registeredAgents, agent ∈ Assoc.keys r.votes
  quorum : r.quorumRequired ≤ c.registeredAgents.countP fun agent =>
    (r.votes.lookup agent).map AgentVote.vote = some .approve
  unchallenged : ∀ m ∈ r.votes, m.2.vote ≠ .challenge

/-- Every vote is of a registered agent, and stays. -/
structure Voters (c : Config) (r : ConsensusRound P) : Prop where
  registered : ∀ m ∈ r.votes, m.1 ∈ c.registeredAgents
  stays : ∀ m ∈ r.votes, Stays m.1
  nodup : (Assoc.keys r.votes).Nodup

namespace ConsensusRound

variable {r : ConsensusRound P}

theorem count_eq (hvoters : Voters c r)
    (hvoted : ∀ agent ∈ c.registeredAgents, agent ∈ Assoc.keys r.votes) (v : VoteType) :
    r.count v = c.registeredAgents.countP fun agent =>
      (r.votes.lookup agent).map AgentVote.vote = some v := by
  have hperm : (Assoc.keys r.votes).Perm c.registeredAgents := by
    refine (List.perm_ext_iff_of_nodup hvoters.nodup c.nodup).mpr fun agent => ⟨fun h => ?_,
      hvoted agent⟩
    obtain ⟨m, hm, rfl⟩ := List.mem_map.mp h
    exact hvoters.registered m hm
  rw [← hperm.countP_eq]
  unfold count Assoc.keys
  rw [List.countP_map]
  refine List.countP_congr fun m hm => ?_
  have hlookup := (Assoc.lookup_eq_some_iff hvoters.nodup).mpr hm
  rw [Function.comp_apply, hlookup, decide_eq_true_eq, decide_eq_true_eq, Option.map_some,
    Option.some.injEq]

theorem evaluate_eq_passed (h : r.evaluate.1 = .passed) :
    r.human0Action ≠ some veto ∧ r.human0Action ≠ some override ∧ r.count .challenge = 0 ∧
      r.quorumRequired ≤ r.count .approve := by
  unfold evaluate at h
  by_cases hveto : r.human0Action = some veto
  · rw [if_pos hveto] at h
    cases h
  by_cases hoverride : r.human0Action = some override
  · rw [if_neg hveto, if_pos hoverride] at h
    cases h
  rw [if_neg hveto, if_neg hoverride] at h
  dsimp only at h
  by_cases hchallenge : 0 < r.count .challenge
  · rw [if_pos hchallenge] at h
    cases h
  by_cases hquorum : r.quorumRequired ≤ r.count .approve
  · exact ⟨hveto, hoverride, Nat.eq_zero_of_not_pos hchallenge, hquorum⟩
  · rw [if_neg hchallenge, if_neg hquorum] at h
    cases h

theorem evaluate_of_veto (h : r.human0Action = some veto) : r.evaluate.1 = .blocked := by
  unfold evaluate
  rw [if_pos h]

theorem evaluate_of_override (h : r.human0Action = some override) : r.evaluate.1 = .override := by
  have hne : r.human0Action ≠ some veto := by
    rw [h]
    decide
  unfold evaluate
  rw [if_neg hne, if_pos h]

theorem ascii_natText (n : Nat) : ∀ x ∈ natText n, x < 128 := by
  intro x hx
  have hdigit := isDigit_of_mem_natText hx
  simp only [isDigit, Bool.and_eq_true, decide_eq_true_eq] at hdigit
  omega

theorem stays_evaluate (h : r.evaluate.1 ≠ .challenged) : MutationConsensus.Stays r.evaluate.2 := by
  unfold evaluate at h ⊢
  dsimp only at h ⊢
  split_ifs at h ⊢ with hveto hoverride hchallenge hquorum
  · decide +kernel
  · decide +kernel
  · exact absurd rfl h
  · refine stays_of_ascii ?_
    simp only [List.forall_mem_append]
    exact ⟨⟨⟨⟨⟨⟨⟨⟨by decide, ascii_natText _⟩, by decide⟩, ascii_intText _⟩, by decide⟩,
      ascii_natText _⟩, by decide⟩, ascii_intText _⟩, by decide⟩
  · refine stays_of_ascii ?_
    simp only [List.forall_mem_append]
    exact ⟨⟨⟨⟨⟨⟨by decide, ascii_natText _⟩, by decide⟩, ascii_intText _⟩, by decide⟩,
      ascii_natText _⟩, by decide⟩

theorem passing_of_evaluate (hvoters : Voters c r) (hmissing : r.missing c = [])
    (h : r.evaluate.1 = .passed) : Passing c r := by
  obtain ⟨-, -, hchallenge, hquorum⟩ := evaluate_eq_passed h
  have hvoted : ∀ agent ∈ c.registeredAgents, agent ∈ Assoc.keys r.votes := by
    intro agent hagent
    by_contra hnot
    have hmem : agent ∈ r.missing c := List.mem_filter.mpr ⟨hagent, decide_eq_true hnot⟩
    rw [hmissing] at hmem
    cases hmem
  refine ⟨hvoted, ?_, fun m hm hvote => ?_⟩
  · rw [← count_eq hvoters hvoted]
    exact hquorum
  · have hnone := List.countP_eq_zero.mp hchallenge m hm
    exact hnone (decide_eq_true hvote)

end ConsensusRound

/-! ### Books -/

variable (P) in
/-- What the events of a ledger tell. -/
structure Book where
  rounds : Rounds P
  /-- The rounds with a veto of HUMAN-0. -/
  vetoed : Str → Prop

def Book.tell (b : Book P) (w : Write P) : Book P :=
  ⟨w.event.apply b.rounds, fun roundId => b.vetoed roundId ∨ w.event.Vetoes roundId⟩

/-- A round of a book. -/
structure SoundRound (c : Config) (b : Book P) (roundId : Str) (r : ConsensusRound P) : Prop where
  roundId_eq : r.roundId = roundId
  stays : Stays roundId
  voters : Voters c r
  pending : r.status = .open → r.outcome = .pending
  passed : r.outcome = .passed → Passing c r
  action : ∀ action ∈ r.human0Action, action = veto ∨ action = override
  vetoed : b.vetoed roundId →
    r.outcome ≠ .passed ∧ r.outcome ≠ .override ∧ r.human0Action ≠ none

structure Sound (c : Config) (b : Book P) : Prop where
  round : ∀ roundId r, b.rounds.lookup roundId = some r → SoundRound c b roundId r
  vetoed : ∀ roundId, b.vetoed roundId → roundId ∈ Assoc.keys b.rounds

def Book.Open (b : Book P) (roundId : Str) (r : ConsensusRound P) : Prop :=
  b.rounds.lookup roundId = some r ∧ r.status = .open

/-- An event that a call may write which has drawn the identifier `fresh`. -/
def Book.Admits (c : Config) (fresh : Str) (b : Book P) (w : Write P) : Prop :=
  match w.event with
  | .roundOpened r =>
    r.roundId = fresh ∧ fresh ∉ Assoc.keys b.rounds ∧ r.Stays ∧ r.outcome = .pending ∧
      r.human0Action = none
  | .voteCast roundId vote _ =>
    (∃ r, b.Open roundId r) ∧ vote.agent ∈ c.registeredAgents ∧ vote.Stays
  | .human0Action roundId action _ => (∃ r, b.Open roundId r) ∧ (action = veto ∨ action = override)
  | .roundClosed closed =>
    ∃ r closedAt, b.Open closed.roundId r ∧ closed = r.closing closedAt ∧
      closed.outcome ≠ .challenged ∧ (closed.outcome = .passed → Passing c r) ∧
      (b.vetoed closed.roundId → closed.human0Action ≠ some override)

/-! ### Events that are admitted -/

variable {b b' : Book P} {w : Write P} {ws : List (Write P)} {roundId fresh : Str}

theorem vetoes_iff {action reason : Str} {roundId' : Str} :
    (Event.human0Action roundId action reason : Event P).Vetoes roundId' ↔
      roundId' = roundId ∧ action = veto := by
  constructor
  · rintro ⟨reason', h⟩
    obtain ⟨rfl, rfl, -⟩ := Event.human0Action.inj h
    exact ⟨rfl, rfl⟩
  · rintro ⟨rfl, rfl⟩
    exact ⟨reason, rfl⟩

theorem Sound.set (h : Sound c b) (roundId : Str) {r : ConsensusRound P} (hr : SoundRound c b' roundId r)
    (hrounds : b'.rounds = Assoc.set b.rounds roundId r)
    (hvetoed : ∀ id, b'.vetoed id → b.vetoed id ∨ id = roundId) : Sound c b' where
  round id r' hlookup := by
    rw [hrounds, Assoc.lookup_set] at hlookup
    by_cases hid : id = roundId
    · rw [if_pos hid] at hlookup
      obtain rfl := Option.some.inj hlookup
      exact hid ▸ hr
    · rw [if_neg hid] at hlookup
      have hround := h.round id r' hlookup
      exact { hround with
        vetoed := fun hv => hround.vetoed ((hvetoed id hv).resolve_right hid) }
  vetoed id hv := by
    rw [hrounds, Assoc.mem_keys_set]
    exact ((hvetoed id hv).imp_left (h.vetoed id)).symm

theorem apply_voteCast {rounds : Rounds P} {r : ConsensusRound P} (h : rounds.lookup roundId = some r)
    (vote : AgentVote P) (resolution : Bool) :
    (Event.voteCast roundId vote resolution).apply rounds =
      Assoc.set rounds roundId (r.withVote vote) := by
  unfold Event.apply
  dsimp only
  rw [h]

theorem apply_human0Action {rounds : Rounds P} {r : ConsensusRound P}
    (h : rounds.lookup roundId = some r) (action reason : Str) :
    (Event.human0Action roundId action reason).apply rounds =
      Assoc.set rounds roundId { r with human0Action := some action } := by
  unfold Event.apply
  dsimp only
  rw [h]

theorem apply_roundClosed {rounds : Rounds P} {r : ConsensusRound P}
    (h : rounds.lookup r.roundId = some r) (closedAt : P.Float) :
    (Event.roundClosed (r.closing closedAt)).apply rounds =
      Assoc.set rounds r.roundId (r.closing closedAt) := by
  have hlookup : rounds.lookup (r.closing closedAt).roundId = some r := h
  unfold Event.apply
  dsimp only
  rw [hlookup]
  rfl

namespace Sound

variable (h : Sound c b)
include h

theorem tell_opened {r : ConsensusRound P} {timestamp : P.Float}
    (hadmits : b.Admits c fresh ⟨.roundOpened r, timestamp⟩) : Sound c (b.tell ⟨.roundOpened r, timestamp⟩) := by
  obtain ⟨rfl, hnew, hstays, hpending, haction⟩ := hadmits
  have hnot : ∀ id, (Event.roundOpened r).Vetoes id → False := by
    rintro id ⟨reason, heq⟩
    cases heq
  refine h.set r.roundId (r := r) ?_ rfl fun id hv => .inl (hv.resolve_right (hnot id))
  have hvotes : ∀ m, m ∉ r.votes := by
    rw [hstays.votes]
    exact fun m => List.not_mem_nil
  refine ⟨rfl, hstays.roundId, ⟨fun m hm => absurd hm (hvotes m), fun m hm => absurd hm (hvotes m), ?_⟩,
    fun _ => hpending, fun hp => ?_, fun action ha => ?_, fun hv => ?_⟩
  · rw [hstays.votes]
    exact List.nodup_nil
  · rw [hpending] at hp
    cases hp
  · rw [haction] at ha
    cases ha
  · exact absurd (h.vetoed _ (hv.resolve_right (hnot _))) hnew

theorem tell_voteCast {vote : AgentVote P} {resolution : Bool} {timestamp : P.Float}
    (hadmits : b.Admits c fresh ⟨.voteCast roundId vote resolution, timestamp⟩) :
    Sound c (b.tell ⟨.voteCast roundId vote resolution, timestamp⟩) := by
  obtain ⟨⟨r, hlookup, hopen⟩, hregistered, hvote⟩ := hadmits
  have hround := h.round roundId r hlookup
  have hnot : ∀ id, (Event.voteCast roundId vote resolution).Vetoes id → False := by
    rintro id ⟨reason, heq⟩
    cases heq
  refine h.set roundId (r := r.withVote vote) ?_ (apply_voteCast hlookup vote resolution)
    fun id hv => .inl (hv.resolve_right (hnot id))
  refine ⟨hround.roundId_eq, hround.stays, ⟨fun m hm => ?_, fun m hm => ?_, ?_⟩, hround.pending,
    fun hp => ?_, hround.action, fun hv => hround.vetoed (hv.resolve_right (hnot _))⟩
  · rcases Assoc.mem_of_mem_set hm with rfl | hm
    · exact hregistered
    · exact hround.voters.registered m hm
  · rcases Assoc.mem_of_mem_set hm with rfl | hm
    · exact hvote.agent
    · exact hround.voters.stays m hm
  · exact Assoc.nodup_keys_set hround.voters.nodup _ _
  · have hpending : (r.withVote vote).outcome = .pending := hround.pending hopen
    rw [hpending] at hp
    cases hp

theorem tell_human0Action {action reason : Str} {timestamp : P.Float}
    (hadmits : b.Admits c fresh ⟨.human0Action roundId action reason, timestamp⟩) :
    Sound c (b.tell ⟨.human0Action roundId action reason, timestamp⟩) := by
  obtain ⟨⟨r, hlookup, hopen⟩, haction⟩ := hadmits
  have hround := h.round roundId r hlookup
  have hpending := hround.pending hopen
  refine h.set roundId (r := { r with human0Action := some action }) ?_
    (apply_human0Action hlookup action reason) fun id hv =>
      hv.imp_right fun hv => (vetoes_iff.mp hv).1
  refine ⟨hround.roundId_eq, hround.stays, ⟨hround.voters.registered, hround.voters.stays,
    hround.voters.nodup⟩, hround.pending, fun hp => ?_, fun a ha => ?_,
    fun _ => ⟨?_, ?_, Option.some_ne_none action⟩⟩
  · exact absurd (hp.symm.trans hpending) (by decide)
  · exact Option.some.inj ha ▸ haction
  · exact fun hp => absurd (hp.symm.trans hpending) (by decide)
  · exact fun hp => absurd (hp.symm.trans hpending) (by decide)

theorem tell_closed {closed : ConsensusRound P} {timestamp : P.Float}
    (hadmits : b.Admits c fresh ⟨.roundClosed closed, timestamp⟩) :
    Sound c (b.tell ⟨.roundClosed closed, timestamp⟩) := by
  obtain ⟨r, closedAt, ⟨hlookup, hopen⟩, rfl, -, hpassed, hvetoed⟩ := hadmits
  have hround := h.round r.roundId r hlookup
  have hnot : ∀ id, (Event.roundClosed (r.closing closedAt)).Vetoes id → False := by
    rintro id ⟨reason, heq⟩
    cases heq
  refine h.set r.roundId (r := r.closing closedAt) ?_ (apply_roundClosed hlookup closedAt)
    fun id hv => .inl (hv.resolve_right (hnot id))
  have hclosed : (r.closing closedAt).status = .closed := rfl
  refine ⟨rfl, hround.stays, ⟨hround.voters.registered, hround.voters.stays, hround.voters.nodup⟩,
    fun hp => absurd (hclosed.symm.trans hp) (by decide), fun hp => ?_, hround.action, fun hv => ?_⟩
  · obtain ⟨hvoted, hquorum, hunchallenged⟩ := hpassed hp
    exact ⟨hvoted, hquorum, hunchallenged⟩
  · have hv := hv.resolve_right (hnot _)
    have hne := (hround.vetoed hv).2.2
    obtain ⟨action, haction⟩ := Option.ne_none_iff_exists'.mp hne
    have hveto : r.human0Action = some veto := by
      rcases hround.action action haction with rfl | rfl
      · exact haction
      · exact absurd haction (hvetoed hv)
    have hblocked : (r.closing closedAt).outcome = .blocked := ConsensusRound.evaluate_of_veto hveto
    rw [hblocked]
    exact ⟨by decide, by decide, hne⟩

theorem tell (hadmits : b.Admits c fresh w) : Sound c (b.tell w) := by
  obtain ⟨event, timestamp⟩ := w
  cases event with
  | roundOpened r => exact h.tell_opened hadmits
  | voteCast roundId vote resolution => exact h.tell_voteCast hadmits
  | roundClosed closed => exact h.tell_closed hadmits
  | human0Action roundId action reason => exact h.tell_human0Action hadmits

theorem stays_of_admits (hadmits : b.Admits c fresh w) : w.event.Stays := by
  have haction : ∀ action, action = veto ∨ action = override → Stays action := by
    rintro action (rfl | rfl) <;> exact stays_of_ascii (by decide)
  obtain ⟨event, timestamp⟩ := w
  cases event with
  | roundOpened r => exact hadmits.2.2.1
  | voteCast roundId vote resolution =>
    obtain ⟨⟨r, hlookup, -⟩, -, hvote⟩ := hadmits
    exact ⟨(h.round roundId r hlookup).stays, hvote⟩
  | roundClosed closed =>
    obtain ⟨r, closedAt, ⟨hlookup, -⟩, rfl, hchallenged, -, -⟩ := hadmits
    have hround := h.round r.roundId r hlookup
    exact ⟨hround.stays, ConsensusRound.stays_evaluate hchallenged, fun action ha =>
      haction action (hround.action action ha)⟩
  | human0Action roundId action reason =>
    obtain ⟨⟨r, hlookup, -⟩, hact⟩ := hadmits
    exact ⟨(h.round roundId r hlookup).stays, haction action hact⟩

end Sound

theorem lookup_tell_of_closed (hadmits : b.Admits c fresh w) {r : ConsensusRound P}
    (hlookup : b.rounds.lookup roundId = some r) (hclosed : r.status = .closed) :
    (b.tell w).rounds.lookup roundId = some r := by
  have hset : ∀ {id : Str} {r' : ConsensusRound P}, (∃ r, b.Open id r) →
      (Assoc.set b.rounds id r').lookup roundId = some r := by
    rintro id r' ⟨r'', hlookup', hopen⟩
    have hne : roundId ≠ id := by
      rintro rfl
      rw [hlookup] at hlookup'
      obtain rfl := Option.some.inj hlookup'
      exact absurd (hopen.symm.trans hclosed) (by decide)
    rw [Assoc.lookup_set, if_neg hne, hlookup]
  obtain ⟨event, timestamp⟩ := w
  cases event with
  | roundOpened r' =>
    obtain ⟨rfl, hnew, -⟩ := hadmits
    have hne : roundId ≠ r'.roundId := by
      rintro rfl
      exact hnew (Assoc.mem_keys_iff.mpr ⟨r, hlookup⟩)
    show (Assoc.set b.rounds r'.roundId r').lookup roundId = some r
    rw [Assoc.lookup_set, if_neg hne, hlookup]
  | voteCast id vote resolution =>
    obtain ⟨⟨r', hopen⟩, -⟩ := hadmits
    show ((Event.voteCast id vote resolution).apply b.rounds).lookup roundId = some r
    rw [apply_voteCast hopen.1]
    exact hset ⟨r', hopen⟩
  | roundClosed closed =>
    obtain ⟨r', closedAt, hopen, rfl, -⟩ := hadmits
    show ((Event.roundClosed (r'.closing closedAt)).apply b.rounds).lookup roundId = some r
    rw [apply_roundClosed hopen.1]
    exact hset ⟨r', hopen⟩
  | human0Action id action reason =>
    obtain ⟨⟨r', hopen⟩, -⟩ := hadmits
    show ((Event.human0Action id action reason).apply b.rounds).lookup roundId = some r
    rw [apply_human0Action hopen.1]
    exact hset ⟨r', hopen⟩

theorem mem_keys_tell (hadmits : b.Admits c fresh w) (h : roundId ∈ Assoc.keys (b.tell w).rounds) :
    roundId ∈ Assoc.keys b.rounds ∨ roundId = fresh := by
  have hset : ∀ {id : Str} {r' : ConsensusRound P}, (∃ r, b.Open id r) →
      roundId ∈ Assoc.keys (Assoc.set b.rounds id r') → roundId ∈ Assoc.keys b.rounds := by
    rintro id r' ⟨r, hlookup, -⟩ hmem
    rcases Assoc.mem_keys_set.mp hmem with rfl | hmem
    · exact Assoc.mem_keys_iff.mpr ⟨r, hlookup⟩
    · exact hmem
  obtain ⟨event, timestamp⟩ := w
  unfold Book.tell at h
  cases event with
  | roundOpened r => exact (Assoc.mem_keys_set.mp h).symm.imp_right fun heq => heq.trans hadmits.1
  | voteCast id vote resolution =>
    obtain ⟨⟨r, hopen⟩, -⟩ := hadmits
    dsimp only at h
    rw [apply_voteCast hopen.1] at h
    exact .inl (hset ⟨r, hopen⟩ h)
  | roundClosed closed =>
    obtain ⟨r, closedAt, hopen, rfl, -⟩ := hadmits
    dsimp only at h
    rw [apply_roundClosed hopen.1] at h
    exact .inl (hset ⟨r, hopen⟩ h)
  | human0Action id action reason =>
    obtain ⟨⟨r, hopen⟩, -⟩ := hadmits
    dsimp only at h
    rw [apply_human0Action hopen.1] at h
    exact .inl (hset ⟨r, hopen⟩ h)

/-! ### Runs of events -/

theorem sound_run (h : Sound c b) (hws : Meets Book.tell (Book.Admits c fresh) b ws) :
    Sound c (run Book.tell b ws) :=
  (always_of_step (fun _ _ hs hadmits => hs.tell hadmits) h hws).last

theorem stays_of_meets (h : Sound c b) (hws : Meets Book.tell (Book.Admits c fresh) b ws) :
    ∀ w ∈ ws, w.event.Stays := by
  induction ws generalizing b with
  | nil => exact List.forall_mem_nil _
  | cons w ws ih =>
    exact List.forall_mem_cons.mpr ⟨h.stays_of_admits hws.1, ih (h.tell hws.1) hws.2⟩

theorem lookup_run_of_closed (hws : Meets Book.tell (Book.Admits c fresh) b ws)
    {r : ConsensusRound P} (hlookup : b.rounds.lookup roundId = some r)
    (hclosed : r.status = .closed) : (run Book.tell b ws).rounds.lookup roundId = some r := by
  induction ws generalizing b with
  | nil => exact hlookup
  | cons w ws ih =>
    exact ih hws.2 (lookup_tell_of_closed hws.1 hlookup hclosed)

theorem mem_keys_run (hws : Meets Book.tell (Book.Admits c fresh) b ws)
    (h : roundId ∈ Assoc.keys (run Book.tell b ws).rounds) :
    roundId ∈ Assoc.keys b.rounds ∨ roundId = fresh := by
  induction ws generalizing b with
  | nil => exact .inl h
  | cons w ws ih =>
    rcases ih hws.2 h with hmem | heq
    · exact mem_keys_tell hws.1 hmem
    · exact .inr heq

theorem rounds_run : (run Book.tell b ws).rounds = told b.rounds ws := by
  induction ws generalizing b with
  | nil => rfl
  | cons w ws ih => exact ih

theorem vetoed_run :
    (run Book.tell b ws).vetoed roundId ↔
      b.vetoed roundId ∨ ∃ w ∈ ws, w.event.Vetoes roundId := by
  induction ws generalizing b with
  | nil => simp
  | cons w ws ih =>
    rw [run_cons, ih, List.exists_mem_cons_iff]
    exact or_assoc

end Adaad.MutationConsensus
