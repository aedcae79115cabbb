import Adaad.Dorkllm.Equiv.ConsensusCalls
import Adaad.Py.Reference

/-!
# Runs of consensus engines

A veto of HUMAN-0 and the closing it causes are two writes.  Where the process stops between them,
the round is open again with the veto in the ledger, and an override closes it as `OVERRIDE`
(`World.not_always_lawful_rounds`).  In a run without such an override, closed rounds are final, rounds are
passed only with the votes of all agents, and none with a veto is passed
(`World.lawful_rounds_of_steady`).
-/

namespace Adaad.MutationConsensus

open Py Run

variable {P : Platform} {rt : Runtime} {c : Config}

/-! ### What runs should keep -/

/-- There is an engine, and its rounds are as they should be. -/
structure Lawful (c : Config) (w : World P) : Prop where
  /-- An engine that is created again has the same rounds and the same head. -/
  recreated : ∃ e, w.engine = some e ∧ World.recreate c w.log = some e
  /-- A round is passed only with the votes of all agents, as many as are required of them approving
  and none challenging. -/
  passed : ∀ e, w.engine = some e → ∀ roundId r, e.rounds.lookup roundId = some r →
    r.outcome = .passed → Passing c r
  /-- A round that the ledger has a veto of is not passed. -/
  vetoed : ∀ e, w.engine = some e → ∀ roundId r, e.rounds.lookup roundId = some r →
    Vetoed P w.log roundId → r.outcome ≠ .passed ∧ r.outcome ≠ .override

/-- Every round that is closed is the same later. -/
def Final (w w' : World P) : Prop :=
  ∀ e, w.engine = some e → ∀ roundId r, e.rounds.lookup roundId = some r → r.status = .closed →
    ∃ e', w'.engine = some e' ∧ e'.rounds.lookup roundId = some r

/-- The texts that the call records are read as they are; a round that the ledger has a veto of is
not closed by an override. -/
def Request.Steady (c : Config) (rounds : Rounds P) (log : Bytes) (stop : Option Nat) :
    Request → Prop
  | .openRound mutationId intentDeclarationId scopePaths proposer =>
    scopePaths ≠ [] → Stays mutationId ∧ Stays intentDeclarationId ∧
      (∀ path ∈ scopePaths, Stays path) ∧ Stays proposer
  | .castVote roundId agent _ rationale =>
    agent ∉ human0Identifiers → agent ∈ c.registeredAgents →
      ∀ r, getOpenRound rounds roundId = .ok r → agent ∉ Assoc.keys r.votes →
        Stays agent ∧ Stays rationale
  | .resolveChallenge _ _ _ => True
  | .closeRound roundId =>
    ∀ r, getOpenRound rounds roundId = .ok r → Vetoed P log roundId →
      r.human0Action ≠ some override
  | .human0Veto _ _ => True
  | .human0Override roundId _ =>
    ∀ r, getOpenRound rounds roundId = .ok r → Vetoed P log roundId → stop = some 1

namespace World

variable {w : World P}

/-- The call is stopped before it writes, or its request is steady. -/
def Steady (c : Config) (w : World P) : Action P → Prop
  | .recreate => True
  | .call call =>
    call.stop = some 0 ∨
      ∀ e, w.engine = some e → call.request.Steady c e.rounds w.log call.stop

/-! ### What steady runs keep -/

def bookOf (ws : List (Write P)) : Book P :=
  run Book.tell ⟨[], fun _ => False⟩ ws

/-- The ledger has these events, the book they tell is sound, and the engine has its rounds. -/
structure Kept (rt : Runtime) (c : Config) (w : World P) (head : Str) (ws : List (Write P)) : Prop where
  written : Written c ⟨w.log, head⟩ ws
  engine : w.engine = some ⟨(bookOf ws).rounds, head⟩
  sound : Sound c (bookOf ws)
  drawn : ∀ roundId ∈ Assoc.keys (bookOf ws).rounds, ∃ n < w.calls, roundId = rt.uuid4 n

variable {head : Str} {ws : List (Write P)}

theorem recreate_of_written {l : Ledger} (h : Written c l ws) :
    recreate c l.log = some ⟨(bookOf ws).rounds, l.chainHmac⟩ := by
  unfold recreate
  rw [h.replayLedger_eq, bookOf, rounds_run]
  rfl

/-- What the call writes is admitted, and where it is not stopped the rounds in memory are as the
events tell. -/
def Admitted (rt : Runtime) (c : Config) (w : World P) (e : Engine P) (b : Book P) (call : Call P) :
    Prop :=
  Meets Book.tell (Book.Admits c (rt.uuid4 w.calls)) b
      (Writes.done call.stop (w.attempt rt c e call).writes) ∧
    (Writes.Finishes call.stop (w.attempt rt c e call).writes →
      (run Book.tell b (w.attempt rt c e call).writes).rounds = (w.attempt rt c e call).rounds)

theorem admitted_override {roundId reason : Str} {r : ConsensusRound P} {env : Env P} {fresh : Str}
    {b : Book P} (hopen : b.Open roundId r) :
    Meets Book.tell (Book.Admits c fresh) b
        (Writes.done (some 1) (human0Override env b.rounds roundId reason).writes) ∧
      ¬ Writes.Finishes (some 1) (human0Override env b.rounds roundId reason).writes := by
  unfold human0Override
  rw [human0Act_of_open hopen]
  exact ⟨⟨⟨⟨r, hopen⟩, .inr rfl⟩, trivial⟩, fun hfinishes =>
    absurd (hfinishes 1 rfl) (Nat.not_succ_le_self 1)⟩

namespace Kept

variable (h : w.Kept rt c head ws)
include h

theorem vetoed_iff {roundId : Str} : Vetoed P w.log roundId ↔ (bookOf ws).vetoed roundId := by
  rw [bookOf, vetoed_run, or_iff_right not_false]
  exact h.written.vetoed_iff

theorem lawful : Lawful c w := by
  refine ⟨⟨_, h.engine, recreate_of_written h.written⟩, ?_, ?_⟩
  · intro e he roundId r hlookup
    obtain rfl := Option.some.inj (h.engine.symm.trans he)
    exact (h.sound.round roundId r hlookup).passed
  · intro e he roundId r hlookup hveto
    obtain rfl := Option.some.inj (h.engine.symm.trans he)
    obtain ⟨hpassed, hoverride, -⟩ := (h.sound.round roundId r hlookup).vetoed (h.vetoed_iff.mp hveto)
    exact ⟨hpassed, hoverride⟩

theorem fresh : rt.uuid4 w.calls ∉ Assoc.keys (bookOf ws).rounds := by
  intro hmem
  obtain ⟨n, hn, heq⟩ := h.drawn _ hmem
  exact absurd (rt.uuid4_injective heq) (Nat.ne_of_gt hn)

theorem call {e : Engine P} {call : Call P} (he : w.engine = some e)
    (hadmitted : Admitted rt c w e (bookOf ws) call) :
    ∃ head', (w.call rt c e call).Kept rt c head'
      (ws ++ Writes.done call.stop (w.attempt rt c e call).writes) := by
  obtain ⟨hadmitted, hrounds⟩ := hadmitted
  obtain rfl := Option.some.inj (h.engine.symm.trans he)
  set a := w.attempt rt c ⟨(bookOf ws).rounds, head⟩ call with ha
  set done := Writes.done call.stop a.writes with hdone
  have hwritten := h.written.after (stays_of_meets h.sound hadmitted)
  have hbook : bookOf (ws ++ done) = run Book.tell (bookOf ws) done := run_append
  refine ⟨(Writes.after (writeLedger c) ⟨w.log, head⟩ done).chainHmac, hwritten, ?_, ?_, ?_⟩
  · unfold World.call
    dsimp only
    rw [← ha, ← hdone]
    by_cases hfinishes : Writes.Finishes call.stop a.writes
    · rw [if_pos hfinishes, hbook, hdone, Writes.done_eq_of_finishes hfinishes, hrounds hfinishes]
    · rw [if_neg hfinishes]
      exact recreate_of_written hwritten
  · rw [hbook]
    exact sound_run h.sound hadmitted
  · intro roundId hmem
    rw [hbook] at hmem
    rcases mem_keys_run hadmitted hmem with hold | rfl
    · obtain ⟨n, hn, heq⟩ := h.drawn roundId hold
      exact ⟨n, Nat.lt_succ_of_lt hn, heq⟩
    · exact ⟨w.calls, Nat.lt_succ_self _, rfl⟩

theorem admitted {call : Call P}
    (hsteady : call.request.Steady c (bookOf ws).rounds w.log call.stop) :
    Admitted rt c w ⟨(bookOf ws).rounds, head⟩ (bookOf ws) call := by
  let env : Env P := ⟨rt.uuid4 w.calls, call.time⟩
  have hascii : ∀ x ∈ env.uuid4, x < 128 := rt.uuid4_ascii w.calls
  have hfresh : env.uuid4 ∉ Assoc.keys (bookOf ws).rounds := h.fresh
  have hvetoed : ∀ roundId, Vetoed P w.log roundId ↔ (bookOf ws).vetoed roundId :=
    fun roundId => h.vetoed_iff
  have hkept : MutationConsensus.Kept c (rt.uuid4 w.calls) (bookOf ws)
      (call.request.attempt c env (bookOf ws).rounds) →
      Admitted rt c w ⟨(bookOf ws).rounds, head⟩ (bookOf ws) call := by
    intro ha
    obtain ⟨rest, hrest⟩ := Writes.done_prefix call.stop
      (call.request.attempt c env (bookOf ws).rounds).writes
    exact ⟨(meets_append.mp (hrest ▸ ha.admitted)).1, fun _ => ha.rounds⟩
  obtain ⟨request, time, stop⟩ := call
  cases request with
  | openRound mutationId intentDeclarationId scopePaths proposer =>
    exact hkept (kept_openRound hfresh hascii hsteady)
  | castVote roundId agent vote rationale =>
    exact hkept (kept_castVote hascii fun hhuman hregistered r hopen =>
      hsteady hhuman hregistered r (getOpenRound_eq_ok.mpr hopen))
  | resolveChallenge roundId challengingAgent resolution =>
    exact hkept (kept_resolveChallenge h.sound hascii)
  | closeRound roundId =>
    exact hkept (kept_closeRound h.sound fun r hopen hv =>
      hsteady r (getOpenRound_eq_ok.mpr hopen) ((hvetoed roundId).mpr hv))
  | human0Veto roundId reason =>
    exact hkept (kept_human0Act h.sound (.inl rfl) fun _ _ => by decide)
  | human0Override roundId reason =>
    by_cases hopen : (∃ r, (bookOf ws).Open roundId r) ∧ (bookOf ws).vetoed roundId
    · obtain ⟨⟨r, hopen⟩, hv⟩ := hopen
      obtain rfl : stop = some 1 := hsteady r (getOpenRound_eq_ok.mpr hopen) ((hvetoed roundId).mpr hv)
      obtain ⟨hadmitted, hfinishes⟩ := @admitted_override P c roundId reason r env env.uuid4
        (bookOf ws) hopen
      exact ⟨hadmitted, fun hall => absurd hall hfinishes⟩
    · exact hkept (kept_human0Act h.sound (.inr rfl) fun hex hv => absurd ⟨hex, hv⟩ hopen)

omit h in
theorem admitted_of_stop {b : Book P} {call : Call P} (hstop : call.stop = some 0) :
    Admitted rt c w ⟨b.rounds, head⟩ b call := by
  unfold Admitted
  rw [hstop]
  refine ⟨trivial, fun hfinishes => ?_⟩
  have hnil : (w.attempt rt c ⟨b.rounds, head⟩ call).writes = [] :=
    List.length_eq_zero_iff.mp (Nat.le_zero.mp (hfinishes 0 rfl))
  rw [hnil]
  exact (quiet_attempt b.rounds call.request hnil).symm

theorem step {a : Action P} (hsteady : w.Steady c a) :
    ∃ head' ws', (w.step rt c a).Kept rt c head' (ws ++ ws') ∧
      Meets Book.tell (Book.Admits c (rt.uuid4 w.calls)) (bookOf ws) ws' := by
  cases a with
  | recreate =>
    refine ⟨head, [], ?_, trivial⟩
    rw [List.append_nil]
    exact ⟨h.written, recreate_of_written h.written, h.sound, h.drawn⟩
  | call call =>
    have hstep : w.step rt c (.call call) = w.call rt c ⟨(bookOf ws).rounds, head⟩ call := by
      unfold World.step
      dsimp only
      rw [h.engine]
    have hadmitted : Admitted rt c w ⟨(bookOf ws).rounds, head⟩ (bookOf ws) call := by
      rcases hsteady with hstop | hrequest
      · exact admitted_of_stop hstop
      · exact h.admitted (hrequest _ h.engine)
    obtain ⟨head', hkept⟩ := h.call h.engine hadmitted
    rw [hstep]
    exact ⟨head', _, hkept, hadmitted.1⟩

end Kept

theorem kept_new : ({} : World P).Kept rt c (str "GENESIS") [] where
  written := written_new
  engine := rfl
  sound := ⟨fun _ _ h => absurd h (Option.some_ne_none _).symm, fun _ h => absurd h not_false⟩
  drawn := fun _ h => absurd h List.not_mem_nil

theorem always_final {as : List (Action P)} {w₀ : World P}
    (hfinal : ∀ e, w₀.engine = some e → ∀ roundId r, e.rounds.lookup roundId = some r →
      r.status = .closed → (bookOf ws).rounds.lookup roundId = some r)
    (h : w.Kept rt c head ws) (hmeets : Meets (World.step rt c) (World.Steady c) w as) :
    Always (World.step rt c) (Final w₀) w as := by
  have hhere : Final w₀ w := fun e he roundId r hlookup hclosed =>
    ⟨_, h.engine, hfinal e he roundId r hlookup hclosed⟩
  induction as generalizing w head ws with
  | nil => exact hhere
  | cons a as ih =>
    obtain ⟨head', ws', hkept, hadmitted⟩ := h.step hmeets.1
    have hnext : ∀ e, w₀.engine = some e → ∀ roundId r, e.rounds.lookup roundId = some r →
        r.status = .closed → (bookOf (ws ++ ws')).rounds.lookup roundId = some r := by
      intro e he roundId r hlookup hclosed
      rw [bookOf, run_append]
      exact lookup_run_of_closed hadmitted (hfinal e he roundId r hlookup hclosed) hclosed
    exact ⟨hhere, ih hnext hkept hmeets.2 fun e he roundId r hlookup hclosed =>
      ⟨_, hkept.engine, hnext e he roundId r hlookup hclosed⟩⟩

theorem henceforth_final {as : List (Action P)} (h : w.Kept rt c head ws)
    (hmeets : Meets (World.step rt c) (World.Steady c) w as) :
    Henceforth (World.step rt c) Final w as := by
  have hself : ∀ e, w.engine = some e → ∀ roundId r, e.rounds.lookup roundId = some r →
      r.status = .closed → (bookOf ws).rounds.lookup roundId = some r := by
    intro e he roundId r hlookup _
    obtain rfl := Option.some.inj (h.engine.symm.trans he)
    exact hlookup
  induction as generalizing w head ws with
  | nil => exact always_final hself h hmeets
  | cons a as ih =>
    obtain ⟨head', ws', hkept, -⟩ := h.step hmeets.1
    refine ⟨always_final hself h hmeets, ih hkept hmeets.2 ?_⟩
    intro e he roundId r hlookup _
    obtain rfl := Option.some.inj (hkept.engine.symm.trans he)
    exact hlookup

/-- In a steady run every state is lawful, and every round that is closed stays as it is. -/
theorem lawful_rounds_of_steady {as : List (Action P)}
    (h : Meets (World.step rt c) (World.Steady c) {} as) :
    Always (World.step rt c) (Lawful c) {} as ∧ Henceforth (World.step rt c) Final {} as := by
  refine ⟨?_, henceforth_final kept_new h⟩
  have hkept := always_of_step (I := fun w : World P => ∃ head ws, w.Kept rt c head ws)
    (fun w a hw hsteady => by
      obtain ⟨head, ws, hw⟩ := hw
      obtain ⟨head', ws', hkept, -⟩ := hw.step hsteady
      exact ⟨head', _, hkept⟩) ⟨_, _, kept_new⟩ h
  refine hkept.imp fun w hw => ?_
  obtain ⟨head, ws, hw⟩ := hw
  exact hw.lawful

/-! ### An override after a veto -/

theorem step_call {e : Engine P} (he : w.engine = some e) (call : Call P) :
    w.step rt c (.call call) = w.call rt c e call := by
  unfold step
  dsimp only
  rw [he]

theorem not_lawful_of_override (h : w.Kept rt c head ws) {roundId reason : Str} {r : ConsensusRound P}
    (hopen : (bookOf ws).Open roundId r) (hveto : (bookOf ws).vetoed roundId) (time : Nat → P.Float) :
    ¬ Lawful c (w.step rt c (.call ⟨.human0Override roundId reason, time, none⟩)) := by
  intro hlawful
  rw [step_call h.engine] at hlawful
  set closed := (r.acted override).closing (time 1) with hclosed
  have hround := h.sound.round roundId r hopen.1
  have houtcome : (r.acted override).evaluate.1 = .override :=
    ConsensusRound.evaluate_of_override rfl
  have hattempt : (w.attempt rt c ⟨(bookOf ws).rounds, head⟩
      ⟨.human0Override roundId reason, time, none⟩) =
      ⟨.ok (.round closed), Assoc.set (bookOf ws).rounds roundId closed,
        [⟨.human0Action roundId override reason, time 0⟩, ⟨.roundClosed closed, time 2⟩]⟩ :=
    human0Act_of_open hopen override reason
  have hstays : ∀ w ∈ ([⟨.human0Action roundId override reason, time 0⟩,
      ⟨.roundClosed closed, time 2⟩] : List (Write P)), w.event.Stays := by
    refine List.forall_mem_cons.mpr ⟨⟨hround.stays, stays_of_ascii (by decide)⟩,
      List.forall_mem_singleton.mpr ⟨?_, ConsensusRound.stays_evaluate ?_, fun action ha => ?_⟩⟩
    · exact hround.roundId_eq.symm ▸ hround.stays
    · rw [houtcome]
      decide
    · exact Option.some.inj ha ▸ stays_of_ascii (by decide)
  have hwritten := h.written.after hstays
  have hlog : Vetoed P (w.call rt c ⟨(bookOf ws).rounds, head⟩
      ⟨.human0Override roundId reason, time, none⟩).log roundId := by
    obtain ⟨w', hw', hv⟩ := (h.written.vetoed_iff).mp (h.vetoed_iff.mpr hveto)
    unfold World.call
    rw [hattempt]
    exact hwritten.vetoed_iff.mpr ⟨w', List.mem_append_left _ hw', hv⟩
  have hengine : (w.call rt c ⟨(bookOf ws).rounds, head⟩
      ⟨.human0Override roundId reason, time, none⟩).engine.map Engine.rounds =
      some (Assoc.set (bookOf ws).rounds roundId closed) := by
    unfold World.call
    rw [hattempt]
    have hfinishes : Writes.Finishes none ([⟨.human0Action roundId override reason, time 0⟩,
        ⟨.roundClosed closed, time 2⟩] : List (Write P)) :=
      fun n hn => absurd hn (Option.not_mem_none n)
    dsimp only
    rw [if_pos hfinishes, Option.map_some]
  obtain ⟨e, he, hrounds⟩ := Option.map_eq_some_iff.mp hengine
  have hlookup : e.rounds.lookup roundId = some closed := by
    rw [hrounds, Assoc.lookup_set, if_pos rfl]
  exact (hlawful.vetoed e he roundId closed hlookup hlog).2 houtcome

def someRuntime : Runtime where
  uuid4 := natText
  uuid4_injective := Function.LeftInverse.injective natValue_natText
  uuid4_ascii := ConsensusRound.ascii_natText

def someConfig : Config where
  quorum := 1
  registeredAgents := [str "ArchitectAgent"]
  nodup := by decide
  hmacSecret := []

def opens (time : Nat → P.Float) : Call P :=
  ⟨.openRound (str "mut-1") (str "intent-1") [str "runtime/"] (str "DreamAgent"), time, none⟩

def vetoes (time : Nat → P.Float) (stop : Option Nat) : Call P :=
  ⟨.human0Veto (natText 0) (str "risk"), time, stop⟩

theorem steady_opens (time : Nat → P.Float) : w.Steady c (.call (opens time)) :=
  .inr fun _ _ _ => ⟨by decide, by decide, by decide, by decide⟩

theorem steady_vetoes (time : Nat → P.Float) (stop : Option Nat) :
    w.Steady c (.call (vetoes time stop)) :=
  .inr fun _ _ => trivial

theorem exists_vetoed (c : Config) (time : Nat → P.Float) :
    ∃ head ws r, (((({} : World P).step someRuntime c (.call (opens time))).step someRuntime c
        (.call (vetoes time (some 1)))).Kept someRuntime c head ws) ∧
      (bookOf ws).Open (natText 0) r ∧ (bookOf ws).vetoed (natText 0) := by
  have hnew : ({} : World P).Kept someRuntime c (str "GENESIS") [] := kept_new
  have hadmitted : Admitted someRuntime c ({} : World P) {} (bookOf []) (opens time) :=
    hnew.admitted fun _ => ⟨by decide, by decide, by decide, by decide⟩
  obtain ⟨head, hopened⟩ := hnew.call rfl hadmitted
  have hadmitted' : Admitted someRuntime c (({} : World P).call someRuntime c {} (opens time)) _
      (bookOf _) (vetoes time (some 1)) := hopened.admitted trivial
  obtain ⟨head', hvetoed⟩ := hopened.call hopened.engine hadmitted'
  rw [@step_call P someRuntime c {} {} rfl (opens time), step_call hopened.engine]
  exact ⟨head', _, _, hvetoed, ⟨rfl, rfl⟩, .inr ⟨str "risk", rfl⟩⟩

/-- Not every run is lawful: a round that was vetoed is overridden. -/
theorem not_always_lawful_rounds :
    ¬ ∀ (rt : Runtime) (c : Config) (as : List (Action reference)),
      Always (World.step rt c) (Lawful c) {} as ∧ Henceforth (World.step rt c) Final {} as := by
  intro hall
  obtain ⟨hlawful, -⟩ := hall someRuntime someConfig [.call (opens fun _ => half),
    .call (vetoes (fun _ => half) (some 1)),
    .call ⟨.human0Override (natText 0) (str "go"), fun _ => half, none⟩]
  obtain ⟨head, ws, r, hkept, hopen, hveto⟩ := @exists_vetoed reference someConfig fun _ => half
  have hlast := hlawful.last
  rw [run_cons, run_cons, run_cons, run_nil] at hlast
  exact not_lawful_of_override hkept hopen hveto _ hlast

/-- A veto that is stopped, and the same veto again. -/
theorem lawful_rounds_of_steady_vetoes :
    Always (World.step someRuntime someConfig) (Lawful someConfig) ({} : World reference)
        [.call (opens fun _ => half), .call (vetoes (fun _ => half) (some 1)),
          .call (vetoes (fun _ => half) none), .recreate] ∧
      Henceforth (World.step someRuntime someConfig) Final ({} : World reference)
        [.call (opens fun _ => half), .call (vetoes (fun _ => half) (some 1)),
          .call (vetoes (fun _ => half) none), .recreate] := by
  exact lawful_rounds_of_steady ⟨steady_opens _, steady_vetoes _ _, steady_vetoes _ _, trivial, trivial⟩

end World

end Adaad.MutationConsensus
