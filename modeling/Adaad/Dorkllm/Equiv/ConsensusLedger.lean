import Adaad.Dorkllm.MutationConsensus

/-!
# The ledger of the consensus rounds

The ledger of an engine has one row for each event that was written (`Written`).  Where the texts of
the events stay as they are, the rows are read as they were written, and an engine that is created
from the ledger has what the events tell, in order (`Written.replayLedger_eq`).
-/

namespace Adaad.MutationConsensus

open Py Innovations

variable {P : Platform}

/-! ### Enums -/

theorem VoteType.ofValue_value (v : VoteType) : VoteType.ofValue P v.value = .ok v := by
  cases v <;> rfl

theorem ConsensusOutcome.ofValue_value (o : ConsensusOutcome) :
    ConsensusOutcome.ofValue P o.value = .ok o := by
  cases o <;> rfl

theorem RoundStatus.ofValue_value (s : RoundStatus) : RoundStatus.ofValue P s.value = .ok s := by
  cases s <;> rfl

theorem VoteType.ascii_value (v : VoteType) : ∀ c ∈ v.value, c < 128 := by
  cases v <;> decide

theorem ConsensusOutcome.ascii_value (o : ConsensusOutcome) : ∀ c ∈ o.value, c < 128 := by
  cases o <;> decide

theorem RoundStatus.ascii_value (s : RoundStatus) : ∀ c ∈ s.value, c < 128 := by
  cases s <;> decide

/-! ### Votes and rounds -/

def Stays (s : Str) : Prop :=
  readAscii s = s

instance (s : Str) : Decidable (Stays s) :=
  inferInstanceAs (Decidable (_ = _))

theorem stays_of_ascii {s : Str} (h : ∀ c ∈ s, c < 128) : Stays s :=
  readAscii_of_ascii h

structure AgentVote.Stays (v : AgentVote P) : Prop where
  agent : MutationConsensus.Stays v.agent
  rationale : MutationConsensus.Stays v.rationale
  voteId : MutationConsensus.Stays v.voteId

/-- A round that is opened, with texts that stay. -/
structure ConsensusRound.Stays (r : ConsensusRound P) : Prop where
  roundId : MutationConsensus.Stays r.roundId
  mutationId : MutationConsensus.Stays r.mutationId
  intentDeclarationId : MutationConsensus.Stays r.intentDeclarationId
  scopePaths : ∀ path ∈ r.scopePaths, MutationConsensus.Stays path
  proposer : MutationConsensus.Stays r.proposer
  votes : r.votes = []
  outcomeReason : MutationConsensus.Stays r.outcomeReason
  human0Action : ∀ action ∈ r.human0Action, MutationConsensus.Stays action

theorem stays_float (x : P.Float) : (Value.float x : P.Obj).Stays :=
  ⟨trivial, trivial, rfl⟩

theorem stays_optional {α : Type} {f : α → P.Obj} {o : Option α} (h : ∀ a ∈ o, (f a).Stays) :
    (optional f o).Stays := by
  cases o with
  | none => exact ⟨trivial, trivial, rfl⟩
  | some a => exact h a rfl

theorem AgentVote.Stays.toDict {v : AgentVote P} (h : v.Stays) :
    (Value.dict v.toDict : P.Obj).Stays := by
  refine NamedItems.stays (NamedItems.of_names
    [str "agent", str "vote", str "rationale", str "timestamp", str "vote_id"] rfl (by decide)
    (by decide)) ?_
  simp only [AgentVote.toDict, List.forall_mem_cons]
  exact ⟨Value.stays_str h.agent, Value.stays_str_of_ascii v.vote.ascii_value,
    Value.stays_str h.rationale, stays_float _, Value.stays_str h.voteId, List.forall_mem_nil _⟩

theorem ConsensusRound.Stays.toDict {r : ConsensusRound P} (h : r.Stays) :
    (Value.dict r.toDict : P.Obj).Stays := by
  refine NamedItems.stays (NamedItems.of_names
    [str "round_id", str "mutation_id", str "intent_declaration_id", str "scope_paths",
      str "proposer", str "quorum_required", str "opened_at", str "status", str "votes",
      str "outcome", str "outcome_reason", str "closed_at", str "human0_action"] rfl (by decide)
    (by decide)) ?_
  simp only [ConsensusRound.toDict, List.forall_mem_cons]
  refine ⟨Value.stays_str h.roundId, Value.stays_str h.mutationId,
    Value.stays_str h.intentDeclarationId, Value.stays_list ?_, Value.stays_str h.proposer,
    Value.stays_int _, stays_float _, Value.stays_str_of_ascii r.status.ascii_value, ?_,
    Value.stays_str_of_ascii r.outcome.ascii_value, Value.stays_str h.outcomeReason,
    stays_optional fun x _ => stays_float x,
    stays_optional fun action ha => Value.stays_str (h.human0Action action ha),
    List.forall_mem_nil _⟩
  · exact List.forall_mem_map.mpr fun path hpath => Value.stays_str (h.scopePaths path hpath)
  · rw [h.votes]
    exact ⟨trivial, ⟨List.nodup_nil, trivial⟩, rfl⟩

theorem AgentVote.fromDict_toDict (v : AgentVote P) : AgentVote.fromDict v.toDict = .ok v := by
  obtain ⟨agent, vote, rationale, timestamp, voteId⟩ := v
  cases vote <;> rfl

theorem optionalOf_float (o : Option P.Float) : optionalOf floatOf (optional .float o) = .ok o := by
  cases o <;> rfl

theorem optionalOf_str (o : Option Str) :
    optionalOf textOf (optional .str o : P.Obj) = .ok o := by
  cases o <;> rfl

theorem ConsensusRound.fromDict_toDict {r : ConsensusRound P} (hvotes : r.votes = []) :
    ConsensusRound.fromDict r.toDict = .ok r := by
  obtain ⟨roundId, mutationId, intentDeclarationId, scopePaths, proposer, quorumRequired, openedAt,
    status, votes, outcome, outcomeReason, closedAt, human0Action⟩ := r
  obtain rfl : votes = [] := hvotes
  let r : ConsensusRound P := ⟨roundId, mutationId, intentDeclarationId, scopePaths, proposer,
    quorumRequired, openedAt, status, [], outcome, outcomeReason, closedAt, human0Action⟩
  have hscope : (fieldAt r.toDict (str "scope_paths") >>= textsOf) = .ok scopePaths :=
    textsOf_map_str scopePaths
  have hstatus : (textAt r.toDict (str "status") >>= RoundStatus.ofValue P) = .ok status :=
    RoundStatus.ofValue_value status
  have houtcome : (textAt r.toDict (str "outcome") >>= ConsensusOutcome.ofValue P) = .ok outcome :=
    ConsensusOutcome.ofValue_value outcome
  have hclosed : optionalOf floatOf ((get r.toDict (str "closed_at")).getD .none) = .ok closedAt :=
    optionalOf_float closedAt
  have haction : optionalOf textOf ((get r.toDict (str "human0_action")).getD .none) =
      .ok human0Action :=
    optionalOf_str human0Action
  unfold ConsensusRound.fromDict
  rw [hscope, hstatus, houtcome, hclosed, haction]
  rfl

/-! ### Events -/

/-- The texts of an event that an engine reads stay. -/
def Event.Stays : Event P → Prop
  | roundOpened r => r.Stays
  | voteCast roundId vote _ => MutationConsensus.Stays roundId ∧ vote.Stays
  | roundClosed r =>
    MutationConsensus.Stays r.roundId ∧ MutationConsensus.Stays r.outcomeReason ∧
      ∀ action ∈ r.human0Action, MutationConsensus.Stays action
  | human0Action roundId action _ => MutationConsensus.Stays roundId ∧ MutationConsensus.Stays action

def Event.apply (rounds : Rounds P) : Event P → Rounds P
  | roundOpened r => Assoc.set rounds r.roundId r
  | voteCast roundId vote _ =>
    match rounds.lookup roundId with
    | none => rounds
    | some r => Assoc.set rounds roundId (r.withVote vote)
  | roundClosed closed =>
    match rounds.lookup closed.roundId with
    | none => rounds
    | some r =>
      Assoc.set rounds closed.roundId
        { r with
          outcome := closed.outcome
          outcomeReason := closed.outcomeReason
          status := .closed
          closedAt := closed.closedAt
          human0Action := closed.human0Action }
  | human0Action roundId action _ =>
    match rounds.lookup roundId with
    | none => rounds
    | some r => Assoc.set rounds roundId { r with human0Action := some action }

theorem Event.ascii_eventType (e : Event P) : ∀ c ∈ e.eventType, c < 128 := by
  have hnames : ∀ name ∈ [str "ROUND_OPENED", str "VOTE_CAST", str "ROUND_CLOSED",
      str "HUMAN0_ACTION"], ∀ c ∈ name, c < 128 := by decide
  refine hnames e.eventType ?_
  cases e <;> simp [Event.eventType]

theorem Event.named_data (e : Event P) : NamedItems e.data := by
  cases e with
  | roundOpened r =>
    exact .of_names [str "round", str "governor", str "innov"] rfl (by decide) (by decide)
  | voteCast roundId vote resolution =>
    cases resolution with
    | false => exact .of_names [str "round_id", str "vote", str "governor"] rfl (by decide) (by decide)
    | true =>
      exact .of_names [str "round_id", str "vote", str "governor", str "resolution_of_challenge"] rfl
        (by decide) (by decide)
  | roundClosed r =>
    exact .of_names [str "round_id", str "mutation_id", str "outcome", str "outcome_reason",
      str "closed_at", str "human0_action", str "governor"] rfl (by decide) (by decide)
  | human0Action roundId action reason =>
    exact .of_names [str "round_id", str "action", str "reason", str "governor"] rfl (by decide)
      (by decide)

theorem orderly_of_stays {v : P.Obj} (h : v.Stays) : v.Orderly :=
  ⟨h.plain, h.wf, h.plain.inOrder h.mapStr⟩

theorem orderly_str (s : Str) : (Value.str s : P.Obj).Orderly :=
  Value.Flat.orderly trivial

theorem orderly_optional {α : Type} {f : α → P.Obj} {o : Option α} (hf : ∀ a ∈ o, (f a).Flat) :
    (optional f o).Orderly := by
  cases o with
  | none => exact Value.Flat.orderly trivial
  | some a => exact (hf a rfl).orderly

theorem Event.Stays.orderly {e : Event P} (h : e.Stays) : ∀ m ∈ e.data, m.2.Orderly := by
  cases e with
  | roundOpened r =>
    simp only [Event.data, List.forall_mem_cons]
    exact ⟨orderly_of_stays (ConsensusRound.Stays.toDict h), orderly_str _, orderly_str _,
      List.forall_mem_nil _⟩
  | voteCast roundId vote resolution =>
    have hvote := orderly_of_stays (AgentVote.Stays.toDict h.2)
    cases resolution with
    | false =>
      simp only [Event.data, List.forall_mem_cons]
      exact ⟨orderly_str _, hvote, orderly_str _, List.forall_mem_nil _⟩
    | true =>
      simp only [Event.data, List.forall_mem_cons]
      exact ⟨orderly_str _, hvote, orderly_str _, Value.Flat.orderly trivial, List.forall_mem_nil _⟩
  | roundClosed r =>
    simp only [Event.data, List.forall_mem_cons]
    exact ⟨orderly_str _, orderly_str _, orderly_str _, orderly_str _,
      orderly_optional fun _ _ => trivial, orderly_optional fun _ _ => trivial, orderly_str _,
      List.forall_mem_nil _⟩
  | human0Action roundId action reason =>
    simp only [Event.data, List.forall_mem_cons]
    exact ⟨orderly_str _, orderly_str _, orderly_str _, orderly_str _, List.forall_mem_nil _⟩

theorem Event.Stays.payloadText_readItems {e : Event P} (h : e.Stays) :
    payloadText (P := P) (.dict (readItems e.data)) = payloadText (.dict e.data) := by
  have horderly := e.named_data.orderly h.orderly
  have hread := dumpsSortedAscii_mapStr P .compact horderly.plain horderly.inOrder
  rw [Value.mapStr, e.named_data.mapStr_eq] at hread
  unfold payloadText
  rw [hread]

theorem get_readItems_data {e : Event P} {k : Str} {v : P.Obj} (hm : (.str k, v) ∈ e.data) :
    get (readItems e.data) k = some (v.mapStr readAscii) := by
  rw [get_readItems, get_eq_some_of_mem e.named_data.nodup hm, Option.map_some]

theorem textAt_readItems_data {e : Event P} {k s : Str} (hm : (.str k, .str s) ∈ e.data)
    (hs : MutationConsensus.Stays s) : textAt (readItems e.data) k = .ok s := by
  have hget := get_readItems_data hm
  rw [Value.mapStr, show readAscii s = s from hs] at hget
  exact textAt_eq_ok hget

theorem itemsAt_readItems_data {e : Event P} {k : Str} {ms : Members P.Float}
    (hm : (.str k, .dict ms) ∈ e.data) (hs : (Value.dict ms : P.Obj).Stays) :
    (fieldAt (readItems e.data) k >>= itemsOf) = .ok ms := by
  have hget := get_readItems_data hm
  rw [hs.mapStr] at hget
  rw [fieldAt_eq_ok hget]
  rfl

theorem Event.Stays.applyEvent_opened {r : ConsensusRound P} (h : r.Stays) (rounds : Rounds P) :
    applyEvent rounds (str "ROUND_OPENED") (readItems (Event.roundOpened r).data) =
      .ok ((Event.roundOpened r).apply rounds) := by
  have hround := @itemsAt_readItems_data P (.roundOpened r) (str "round") r.toDict
    (by simp [Event.data]) h.toDict
  unfold applyEvent
  rw [if_pos rfl, hround]
  dsimp only [bind, Except.bind]
  rw [ConsensusRound.fromDict_toDict h.votes]
  rfl

theorem Event.Stays.applyEvent_voteCast {roundId : Str} {vote : AgentVote P}
    (hid : MutationConsensus.Stays roundId) (h : vote.Stays) (resolution : Bool)
    (rounds : Rounds P) :
    applyEvent rounds (str "VOTE_CAST") (readItems (Event.voteCast roundId vote resolution).data) =
      .ok ((Event.voteCast roundId vote resolution).apply rounds) := by
  have hround : textAt (readItems (Event.voteCast roundId vote resolution).data) (str "round_id") =
      .ok roundId :=
    textAt_readItems_data (by cases resolution <;> simp [Event.data]) hid
  have hvote : (fieldAt (readItems (Event.voteCast roundId vote resolution).data) (str "vote") >>=
      itemsOf) = .ok vote.toDict :=
    itemsAt_readItems_data (by cases resolution <;> simp [Event.data]) h.toDict
  unfold applyEvent
  rw [if_neg (by decide), if_pos rfl, hround, hvote]
  unfold Event.apply
  dsimp only [bind, Except.bind]
  cases rounds.lookup roundId with
  | none => rfl
  | some r =>
    dsimp only
    rw [AgentVote.fromDict_toDict]
    rfl

theorem Event.Stays.applyEvent_closed {r : ConsensusRound P} (hid : MutationConsensus.Stays r.roundId)
    (hreason : MutationConsensus.Stays r.outcomeReason)
    (haction : ∀ action ∈ r.human0Action, MutationConsensus.Stays action) (rounds : Rounds P) :
    applyEvent rounds (str "ROUND_CLOSED") (readItems (Event.roundClosed r).data) =
      .ok ((Event.roundClosed r).apply rounds) := by
  have htext : ∀ {k s : Str}, (Key.str k, Value.str s) ∈ (Event.roundClosed r).data →
      MutationConsensus.Stays s → textAt (readItems (Event.roundClosed r).data) k = .ok s :=
    fun hm hs => textAt_readItems_data hm hs
  have hround := htext (k := str "round_id") (s := r.roundId) (by simp [Event.data]) hid
  have houtcome := htext (k := str "outcome") (s := r.outcome.value) (by simp [Event.data])
    (stays_of_ascii r.outcome.ascii_value)
  have hreason := htext (k := str "outcome_reason") (s := r.outcomeReason) (by simp [Event.data])
    hreason
  have hclosed := @get_readItems_data P (.roundClosed r) (str "closed_at") (optional .float r.closedAt)
    (by simp [Event.data])
  rw [(stays_optional fun x _ => stays_float x).mapStr] at hclosed
  have haction' := @get_readItems_data P (.roundClosed r) (str "human0_action")
    (optional .str r.human0Action) (by simp [Event.data])
  rw [(stays_optional fun action ha => Value.stays_str (haction action ha)).mapStr] at haction'
  unfold applyEvent
  rw [if_neg (by decide), if_neg (by decide), if_pos rfl, hround, houtcome, hreason, haction',
    fieldAt_eq_ok hclosed]
  unfold Event.apply
  dsimp only [bind, Except.bind]
  cases rounds.lookup r.roundId with
  | none => rfl
  | some r' =>
    rw [ConsensusOutcome.ofValue_value, optionalOf_float, Option.getD_some, optionalOf_str]
    rfl

theorem Event.Stays.applyEvent_human0Action {roundId action : Str}
    (hid : MutationConsensus.Stays roundId) (haction : MutationConsensus.Stays action) (reason : Str)
    (rounds : Rounds P) :
    applyEvent rounds (str "HUMAN0_ACTION")
        (readItems (Event.human0Action roundId action reason : Event P).data) =
      .ok ((Event.human0Action roundId action reason).apply rounds) := by
  have hround := @textAt_readItems_data P (.human0Action roundId action reason) (str "round_id")
    roundId (by simp [Event.data]) hid
  have haction := @textAt_readItems_data P (.human0Action roundId action reason) (str "action")
    action (by simp [Event.data]) haction
  unfold applyEvent
  rw [if_neg (by decide), if_neg (by decide), if_neg (by decide), if_pos rfl, hround, haction]
  unfold Event.apply
  dsimp only [bind, Except.bind]
  cases rounds.lookup roundId <;> rfl

theorem Event.Stays.applyEvent_eq {e : Event P} (h : e.Stays) (rounds : Rounds P) :
    applyEvent rounds e.eventType (readItems e.data) = .ok (e.apply rounds) := by
  cases e with
  | roundOpened r => exact applyEvent_opened h rounds
  | voteCast roundId vote resolution => exact applyEvent_voteCast h.1 h.2 resolution rounds
  | roundClosed r => exact applyEvent_closed h.1 h.2.1 h.2.2 rounds
  | human0Action roundId action reason => exact applyEvent_human0Action h.1 h.2 reason rounds

/-! ### Records -/

variable {c : Config} {head : Str} {w : Write P} {ws : List (Write P)} {l : Ledger}

theorem Write.named_record (w : Write P) (chainHmac : Str) : NamedItems (w.record chainHmac) :=
  .of_names [str "event_type", str "data", str "chain_hmac", str "timestamp"] rfl (by decide)
    (by decide)

/-- The `chain_hmac` of the record of an event. -/
def Write.hmac (w : Write P) (c : Config) (head : Str) : Str :=
  computeHmac P c (payloadText (.dict w.event.data)) head

theorem Write.ascii_hmac (w : Write P) (c : Config) (head : Str) : ∀ x ∈ w.hmac c head, x < 128 :=
  ascii_sha256 P _

theorem Write.readBack_record (h : w.event.Stays) {chainHmac : Str} (hascii : ∀ x ∈ chainHmac, x < 128) :
    readBack P (w.record chainHmac) =
      [(.str (str "event_type"), .str w.event.eventType),
        (.str (str "data"), .dict (readItems w.event.data)),
        (.str (str "chain_hmac"), .str chainHmac), (.str (str "timestamp"), .float w.timestamp)] := by
  have horderly : ∀ m ∈ w.record chainHmac, m.2.Orderly := by
    simp only [Write.record, List.forall_mem_cons]
    exact ⟨orderly_str _, w.event.named_data.orderly h.orderly, orderly_str _,
      Value.Flat.orderly trivial, List.forall_mem_nil _⟩
  rw [readBack_of_orderly horderly]
  simp only [readItems, Write.record, List.map_cons, List.map_nil, Value.mapStr]
  rw [readAscii_of_ascii w.event.ascii_eventType, readAscii_of_ascii hascii,
    w.event.named_data.mapStr_eq]
  rfl

theorem replayRecord_eq (h : w.event.Stays) (rounds : Rounds P) :
    replayRecord c (rounds, head) (.dict (readBack P (w.record (w.hmac c head)))) =
      .ok (w.event.apply rounds, w.hmac c head) := by
  rw [Write.readBack_record h (w.ascii_hmac c head)]
  set record : Members P.Float :=
    [(.str (str "event_type"), .str w.event.eventType),
      (.str (str "data"), .dict (readItems w.event.data)),
      (.str (str "chain_hmac"), .str (w.hmac c head)),
      (.str (str "timestamp"), .float w.timestamp)] with hrecord
  have hvalid : chainValid c record head = .ok true := by
    unfold chainValid
    show Except.ok (decide ((w.hmac c head).take 24 =
      (computeHmac P c (payloadText (.dict (readItems w.event.data))) head).take 24)) = _
    rw [h.payloadText_readItems]
    exact congrArg Except.ok (decide_eq_true rfl)
  unfold replayRecord
  dsimp only
  rw [hvalid]
  dsimp only
  show Except.mapError _ (applyEvent rounds w.event.eventType (readItems w.event.data) >>= _) = _
  rw [h.applyEvent_eq]
  rfl

/-! ### The ledger -/

def headAfter (c : Config) (head : Str) (ws : List (Write P)) : Str :=
  ws.foldl (fun head w => w.hmac c head) head

def rowsFrom (c : Config) : Str → List (Write P) → List (Members P.Float)
  | _, [] => []
  | head, w :: ws => w.record (w.hmac c head) :: rowsFrom c (w.hmac c head) ws

def told (rounds : Rounds P) (ws : List (Write P)) : Rounds P :=
  ws.foldl (fun rounds w => w.event.apply rounds) rounds

theorem rowsFrom_concat (head : Str) (ws : List (Write P)) (w : Write P) :
    rowsFrom c head (ws ++ [w]) =
      rowsFrom c head ws ++ [w.record (w.hmac c (headAfter c head ws))] := by
  induction ws generalizing head with
  | nil => rfl
  | cons w' ws ih =>
    rw [List.cons_append, rowsFrom, ih]
    rfl

theorem named_rowsFrom : ∀ row ∈ rowsFrom c head ws, NamedItems row := by
  induction ws generalizing head with
  | nil => exact List.forall_mem_nil _
  | cons w ws ih => exact List.forall_mem_cons.mpr ⟨w.named_record _, ih⟩

/-- The ledger has these events. -/
structure Written (c : Config) (l : Ledger) (ws : List (Write P)) : Prop where
  rows : LogRows P (rowsFrom c (str "GENESIS") ws) l.log
  chainHmac : l.chainHmac = headAfter c (str "GENESIS") ws
  stays : ∀ w ∈ ws, w.event.Stays

theorem written_new : Written c ⟨[], str "GENESIS"⟩ ([] : List (Write P)) :=
  ⟨LogRows.nil, rfl, List.forall_mem_nil _⟩

theorem Written.writeLedger (h : Written c l ws) (hw : w.event.Stays) :
    Written c (writeLedger c l w) (ws ++ [w]) where
  rows := by
    rw [rowsFrom_concat, ← h.chainHmac]
    exact h.rows.append _
  chainHmac := by
    unfold headAfter
    rw [List.foldl_append]
    show w.hmac c l.chainHmac = w.hmac c (headAfter c (str "GENESIS") ws)
    rw [h.chainHmac]
  stays := List.forall_mem_append.mpr ⟨h.stays, List.forall_mem_singleton.mpr hw⟩

theorem Written.after (h : Written c l ws) {ws' : List (Write P)} (hws' : ∀ w ∈ ws', w.event.Stays) :
    Written c (Writes.after (MutationConsensus.writeLedger c) l ws') (ws ++ ws') := by
  induction ws' generalizing l ws with
  | nil =>
    rw [List.append_nil]
    exact h
  | cons w ws' ih =>
    obtain ⟨hw, hws'⟩ := List.forall_mem_cons.mp hws'
    have hrest := ih (h.writeLedger hw) hws'
    rw [List.append_assoc] at hrest
    exact hrest

theorem readLedger_of_rows {rows : List (Members P.Float)} {log : Bytes} (hlog : LogRows P rows log)
    (hnamed : ∀ row ∈ rows, NamedItems row) :
    readLedger P log = .ok (rows.map fun row => .dict (readBack P row)) := by
  have hlines : ((rows.map (logLine P)).map strip).filter (fun line => line ≠ []) =
      rows.map (logLine P) := by
    rw [List.map_map, show strip ∘ logLine P = logLine P from funext strip_logLine]
    refine List.filter_eq_self.mpr (List.forall_mem_map.mpr fun row _ => ?_)
    exact decide_eq_true (logLine_ne_nil row)
  have hrecords : (rows.map (logLine P)).mapM (loads P) =
      some (rows.map fun row => (.dict (readBack P row) : P.Obj)) := by
    clear hlog hlines
    induction rows with
    | nil => rfl
    | cons row rows ih =>
      obtain ⟨hrow, hrest⟩ := List.forall_mem_cons.mp hnamed
      rw [List.map_cons, List.mapM_cons, loads_logLine hrow, ih hrest]
      rfl
  unfold readLedger
  rw [hlog.readLines_eq]
  dsimp only
  rw [hlines, hrecords]
  rfl

theorem foldlM_replayRecord (hws : ∀ w ∈ ws, w.event.Stays) (rounds : Rounds P) :
    ((rowsFrom c head ws).map fun row => (.dict (readBack P row) : P.Obj)).foldlM (replayRecord c)
      (rounds, head) = .ok (told rounds ws, headAfter c head ws) := by
  induction ws generalizing head rounds with
  | nil => rfl
  | cons w ws ih =>
    obtain ⟨hw, hws⟩ := List.forall_mem_cons.mp hws
    rw [rowsFrom, List.map_cons, List.foldlM_cons, replayRecord_eq hw]
    exact ih hws _

theorem Written.replayLedger_eq (h : Written c l ws) :
    replayLedger P c l.log = .ok ⟨told [] ws, l.chainHmac⟩ := by
  unfold replayLedger
  rw [readLedger_of_rows h.rows named_rowsFrom]
  dsimp only
  rw [foldlM_replayRecord h.stays, h.chainHmac]
  rfl

/-! ### Vetoes -/

/-- A record of a veto of HUMAN-0 in the round. -/
def IsVeto (roundId : Str) (record : P.Obj) : Prop :=
  ∃ ms data, record = .dict ms ∧ get ms (str "event_type") = some (.str (str "HUMAN0_ACTION")) ∧
    get ms (str "data") = some (.dict data) ∧ get data (str "round_id") = some (.str roundId) ∧
    get data (str "action") = some (.str veto)

variable (P) in
/-- The ledger has a veto of HUMAN-0 in the round. -/
def Vetoed (log : Bytes) (roundId : Str) : Prop :=
  ∃ records, readLedger P log = .ok records ∧ ∃ record ∈ records, IsVeto roundId record

def Event.Vetoes (roundId : Str) (e : Event P) : Prop :=
  ∃ reason, e = .human0Action roundId veto reason

theorem isVeto_iff (h : w.event.Stays) {roundId : Str} :
    IsVeto roundId (.dict (readBack P (w.record (w.hmac c head)))) ↔ w.event.Vetoes roundId := by
  rw [Write.readBack_record h (w.ascii_hmac c head)]
  constructor
  · rintro ⟨ms, data, hms, htype, hdata, hround, haction⟩
    obtain rfl := Value.dict.inj hms
    have htype : w.event.eventType = str "HUMAN0_ACTION" := Value.str.inj (Option.some.inj htype)
    obtain rfl : readItems w.event.data = data := Value.dict.inj (Option.some.inj hdata)
    cases hevent : w.event with
    | human0Action id action reason =>
      rw [hevent] at h hround haction
      have hid := @get_readItems_data P (.human0Action id action reason) (str "round_id") (.str id)
        (by simp [Event.data])
      have hact := @get_readItems_data P (.human0Action id action reason) (str "action") (.str action)
        (by simp [Event.data])
      rw [hround, (Value.stays_str h.1).mapStr] at hid
      rw [haction, (Value.stays_str h.2).mapStr] at hact
      obtain rfl := Value.str.inj (Option.some.inj hid)
      obtain rfl := Value.str.inj (Option.some.inj hact)
      exact ⟨reason, rfl⟩
    | roundOpened | voteCast | roundClosed =>
      rw [hevent] at htype
      exact absurd htype (by simp only [Event.eventType]; decide)
  · rintro ⟨reason, hevent⟩
    rw [hevent] at h ⊢
    have hid := @get_readItems_data P (.human0Action roundId veto reason) (str "round_id")
      (.str roundId) (by simp [Event.data])
    rw [(Value.stays_str h.1).mapStr] at hid
    exact ⟨_, _, rfl, rfl, rfl, hid, rfl⟩

theorem exists_isVeto_iff (hws : ∀ w ∈ ws, w.event.Stays) {roundId : Str} :
    (∃ row ∈ rowsFrom c head ws, IsVeto roundId (.dict (readBack P row))) ↔
      ∃ w ∈ ws, w.event.Vetoes roundId := by
  induction ws generalizing head with
  | nil => exact iff_of_false (by rintro ⟨_, hm, -⟩; cases hm) (by rintro ⟨_, hm, -⟩; cases hm)
  | cons w ws ih =>
    obtain ⟨hw, hws⟩ := List.forall_mem_cons.mp hws
    rw [rowsFrom, List.exists_mem_cons_iff, List.exists_mem_cons_iff, isVeto_iff hw, ih hws]

theorem Written.vetoed_iff (h : Written c l ws) {roundId : Str} :
    Vetoed P l.log roundId ↔ ∃ w ∈ ws, w.event.Vetoes roundId := by
  rw [← @exists_isVeto_iff P c (str "GENESIS") ws h.stays roundId]
  constructor
  · rintro ⟨records, hrecords, record, hmem, hveto⟩
    rw [readLedger_of_rows h.rows named_rowsFrom] at hrecords
    obtain rfl := Except.ok.inj hrecords
    obtain ⟨row, hrow, rfl⟩ := List.mem_map.mp hmem
    exact ⟨row, hrow, hveto⟩
  · rintro ⟨row, hrow, hveto⟩
    exact ⟨_, readLedger_of_rows h.rows named_rowsFrom, _, List.mem_map_of_mem hrow, hveto⟩

end Adaad.MutationConsensus
