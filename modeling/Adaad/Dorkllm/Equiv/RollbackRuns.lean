import Adaad.Dorkllm.Equiv.ExecutorReplay
import Adaad.Dorkllm.Equiv.RollbackCalls
import Adaad.Py.Json.Equiv.Sort

/-!
# Runs of the amendment rollback

In every run, no execution has two records with status `ROLLED_BACK`, and the constitution is the
first one with the inverses that were written to it.

In a run in which no call stops, or raises, between such a record and the rename of the constitution,
and no call is triggered by the index while the newest executed amendment is rolled back already and
an older one is not, the records are those of the inverses that were written, and a call that is
triggered by the index rolls back the newest amendment that was not (`World.lawful_rollback_of_steady`).
-/

namespace Adaad.AmendmentRollback

open Py Run

variable {P : Platform} {s : Store P} {e : Env} {trigger triggerDetail : Str} {d : Draws}
  {ledger : List RollbackRecord} {caeLedger : List (Candidate P)} {format : FormatScsi P}
  {ws : List (Write P)}

/-! ### Records that can be written -/

/-- The digests in the ledger are written in ASCII. -/
def Sealed (ledger : List RollbackRecord) : Prop :=
  ∀ r ∈ ledger, ∀ c ∈ r.digest, c < 128

theorem ascii_getTailDigest (h : Sealed ledger) : ∀ c ∈ getTailDigest P ledger, c < 128 := by
  unfold getTailDigest
  cases hlast : ledger.getLast? with
  | none => exact ascii_sha256 P _
  | some r => exact h r (List.mem_of_getLast? hlast)

/-- The texts of an attempt can be encoded. -/
structure Attempt.Encodable (a : Attempt) : Prop where
  executionId : Py.Encodable a.executionId
  invariantId : Py.Encodable a.invariantId
  originalAction : Py.Encodable a.originalAction
  rollbackAction : Py.Encodable a.rollbackAction
  trigger : Py.Encodable a.trigger
  triggerDetail : Py.Encodable a.triggerDetail
  rejectionReason : Py.Encodable a.rejectionReason

theorem encodable_value (status : RollbackStatus) : Py.Encodable status.value := by
  cases status <;> exact encodable_of_ascii (by decide)

theorem encodable_bar {t u : Str} (ht : Py.Encodable t) (hu : Py.Encodable u) :
    Py.Encodable (t ++ 124 :: u) :=
  ht.append ((encodable_of_ascii (s := [124]) (by decide)).append hu)

theorem encodable_item {k v : Str} (hk : ∀ c ∈ k, c < 128) (hv : Py.Encodable v) :
    Py.Encodable (item (P := P) k v).1.chars ∧ Py.Encodable (item (P := P) k v).2.chars :=
  ⟨encodable_of_ascii hk, hv⟩

theorem encodable_line {a : Attempt} (ha : a.Encodable) (d : Draws) {prev digest : Str}
    (hprev : Py.Encodable prev) (hdigest : Py.Encodable digest) :
    Py.Encodable (dumps P .spaced (.dict (sealedRecord a d prev digest).toDict) ++ [10]) := by
  refine Py.Encodable.append ?_ (encodable_of_ascii (by decide))
  rw [encodable_dumps_iff, encodable_dict_iff, RollbackRecord.toDict]
  simp only [List.forall_mem_cons, List.not_mem_nil, false_implies, implies_true, and_true]
  exact ⟨encodable_item (by decide) (encodable_of_ascii d.rollbackId_ascii),
    encodable_item (by decide) ha.executionId, encodable_item (by decide) ha.invariantId,
    encodable_item (by decide) ha.originalAction, encodable_item (by decide) ha.rollbackAction,
    encodable_item (by decide) ha.trigger, encodable_item (by decide) ha.triggerDetail,
    encodable_item (by decide) (encodable_value a.status),
    encodable_item (by decide) ha.rejectionReason,
    encodable_item (by decide) (encodable_of_ascii (s := governor) (by decide)),
    encodable_item (by decide) (encodable_of_ascii (s := innovCode) (by decide)),
    encodable_item (by decide) (encodable_of_ascii d.recordAt_ascii),
    encodable_item (by decide) hprev, encodable_item (by decide) hdigest⟩

theorem exists_recordAttempt {a : Attempt} (ha : a.Encodable) (h : Sealed ledger) :
    ∃ r, recordAttempt P ledger a d = .ok r := by
  have hprev : Py.Encodable (getTailDigest P ledger) := encodable_of_ascii (ascii_getTailDigest h)
  have hpayload : Py.Encodable (sealedPayload a d (getTailDigest P ledger)) :=
    encodable_bar (encodable_of_ascii d.rollbackId_ascii) (encodable_bar ha.executionId
      (encodable_bar ha.invariantId (encodable_bar ha.rollbackAction
        (encodable_bar (encodable_value a.status)
          (encodable_bar (encodable_of_ascii d.recordAt_ascii) hprev)))))
  obtain ⟨raw, hraw⟩ := exists_encode_iff.mpr hpayload
  have hdigest : Py.Encodable (hmacSha256 P hmacKey raw) := encodable_of_ascii (ascii_sha256 P _)
  obtain ⟨line, hline⟩ := exists_encode_iff.mpr (encodable_line (P := P) ha d hprev hdigest)
  unfold recordAttempt buildRecord hmacHex
  simp only [hraw, Except.map]
  unfold writeLine
  rw [hline]
  exact ⟨_, rfl⟩

/-! ### Triggered calls -/

/-- The texts of a candidate that go into its record can be encoded. -/
structure Candidate.Writable (c : Candidate P) : Prop where
  executionId : Py.Encodable c.executionId
  invariantId : Py.Encodable c.invariantId
  action : Py.Encodable c.action

theorem encodable_inverseAction (action : Str) :
    Py.Encodable ((inverseActions.lookup action).getD (str "RESTORE")) := by
  cases h : inverseActions.lookup action with
  | none => exact encodable_of_ascii (by decide)
  | some inverse =>
    have hall : ∀ m ∈ inverseActions, ∀ c ∈ m.2, c < 128 := by decide
    exact encodable_of_ascii (hall _ (Assoc.mem_of_lookup h))

theorem exists_writes_executeRollback {c : Candidate P} (hsealed : Sealed s.ledger)
    (hstatus : ∃ t ∈ c.status, t ∈ validCaeStatusesForRollback)
    (hnot : c.executionId ∉ getRolledBackExecutionIds s.ledger) (hc : c.Writable)
    (htrigger : Py.Encodable trigger) (hdetail : Py.Encodable triggerDetail) :
    ∃ r constitution state, (executeRollback s e [c] trigger triggerDetail).2 =
        [.record r, .temporary constitution, .replace, .stateTemporary state, .stateReplace] ∧
      rolledBackBy [(.record r : Write P)] = [c.executionId] ∧ ∀ c ∈ r.digest, c < 128 := by
  obtain ⟨t, ht, hvalid⟩ := hstatus
  have hexecuted : ¬ (c.status.all fun s => decide (s ∉ validCaeStatusesForRollback)) = true := by
    rw [Option.mem_def.mp ht]
    exact fun h => of_decide_eq_true h hvalid
  have hrecord : ∃ r, recordAttempt P s.ledger
      { executionId := c.executionId
        invariantId := c.invariantId
        originalAction := c.action
        rollbackAction := (inverseActions.lookup c.action).getD (str "RESTORE")
        trigger := trigger
        triggerDetail := triggerDetail
        status := .rolledBack } (e.draws 0) = .ok r :=
    exists_recordAttempt ⟨hc.executionId, hc.invariantId, hc.action,
      encodable_inverseAction c.action, htrigger, hdetail, encodable_nil⟩ hsealed
  obtain ⟨r, hr⟩ := hrecord
  obtain ⟨hid, hrstatus, hline⟩ := recordAttempt_eq_ok hr
  have hturn : rollbackCandidate s trigger triggerDetail (e.draws 0) c
      { constitution := loadConstitution s
        alreadyRolledBack := getRolledBackExecutionIds s.ledger } =
      (.ok (), { constitution := applyInverseAction (loadConstitution s) c (e.draws 0).rollbackAt
                 alreadyRolledBack := c.executionId :: getRolledBackExecutionIds s.ledger
                 writes := [.record r]
                 rolledBack := 1
                 rollbackIds := [r.rollbackId] }) := by
    unfold rollbackCandidate
    simp only [if_neg hnot, if_neg hexecuted, Writes.after_nil, hr]
    rfl
  refine ⟨r, applyInverseAction (loadConstitution s) c (e.draws 0).rollbackAt,
    newState (c.executionId :: getRolledBackExecutionIds s.ledger) e, ?_, ?_, hline⟩
  · unfold executeRollback
    simp only [rollbackCandidates, hturn]
    rw [if_pos Nat.one_pos]
    rfl
  · rw [rolledBackBy_record hrstatus, hid]

theorem exists_executeRollback_skipped {c : Candidate P} (hsealed : Sealed s.ledger)
    (hrolled : c.executionId ∈ getRolledBackExecutionIds s.ledger) (hc : c.Writable)
    (htrigger : Py.Encodable trigger) (hdetail : Py.Encodable triggerDetail) :
    ∃ r result, executeRollback s e [c] trigger triggerDetail = (.ok result, [.record r]) ∧
      rolledBackBy [(.record r : Write P)] = [] := by
  have hrecord : ∃ r, recordAttempt P s.ledger
      { executionId := c.executionId
        invariantId := c.invariantId
        originalAction := c.action
        rollbackAction := str "SKIPPED"
        trigger := trigger
        triggerDetail := triggerDetail
        status := .skipped
        rejectionReason := str "CAR-DOUBLE-0: already rolled back" } (e.draws 0) = .ok r :=
    exists_recordAttempt ⟨hc.executionId, hc.invariantId, hc.action,
      encodable_of_ascii (s := str "SKIPPED") (by decide), htrigger, hdetail,
      encodable_of_ascii (s := str "CAR-DOUBLE-0: already rolled back") (by decide)⟩ hsealed
  obtain ⟨r, hr⟩ := hrecord
  obtain ⟨-, hrstatus, -⟩ := recordAttempt_eq_ok hr
  have hturn : rollbackCandidate s trigger triggerDetail (e.draws 0) c
      { constitution := loadConstitution s
        alreadyRolledBack := getRolledBackExecutionIds s.ledger } =
      (.ok (), { constitution := loadConstitution s
                 alreadyRolledBack := getRolledBackExecutionIds s.ledger
                 writes := [.record r]
                 skipped := 1 }) := by
    unfold rollbackCandidate
    simp only [if_pos hrolled, Writes.after_nil, hr]
    rfl
  have hcall : ∃ result,
      executeRollback s e [c] trigger triggerDetail = (.ok result, [.record r]) := by
    unfold executeRollback
    simp only [rollbackCandidates, hturn]
    rw [if_neg (Nat.lt_irrefl 0)]
    exact ⟨_, rfl⟩
  obtain ⟨result, hcall⟩ := hcall
  refine ⟨r, result, hcall, rolledBackBy_record_of_ne ?_⟩
  rw [hrstatus]
  exact RollbackStatus.noConfusion

theorem encodable_criticalDetail (format : FormatScsi P) (scsi : Int ⊕ P.Float) :
    Py.Encodable (criticalDetail format scsi) :=
  Py.Encodable.append (encodable_of_ascii (by decide))
    (Py.Encodable.append (encodable_of_ascii (format.ascii scsi)) (encodable_of_ascii (by decide)))

/-! ### Runs -/

variable (P) in
/-- The files, and what was done to them. -/
structure World where
  store : Store P
  /-- How the last call ended, unless it was stopped. -/
  reply : Option (Except Exc RollbackResult) := none
  /-- The executions whose inverses have been written to the constitution store. -/
  inverted : List Str := []
  /-- For each call that the index has triggered and that was not stopped: the candidates that were
  not rolled back before it, and the executions that it has rolled back. -/
  triggered : List (List (Candidate P) × List Str) := []

/-- The executed amendments that are not rolled back. -/
def pending (caeLedger : List (Candidate P)) (ledger : List RollbackRecord) : List (Candidate P) :=
  caeLedger.filter fun c =>
    (c.status.any fun s => decide (s ∈ validCaeStatusesForRollback)) &&
      decide (c.executionId ∉ getRolledBackExecutionIds ledger)

/-- None of these is newer. -/
structure Newest (c : Candidate P) (cs : List (Candidate P)) : Prop where
  mem : c ∈ cs
  latest : ∀ c' ∈ cs, strLe c'.timestamp c.timestamp = true

def Request.triggered : Request P → Bool
  | .auto snapshot => snapshot.critical
  | .manual _ _ => false

namespace World

def start (constitution : Option (Constitution P)) : World P where
  store := { constitution := constitution }

variable (format : FormatScsi P) (caeLedger : List (Candidate P)) (w : World P) (c : Call P)

/-- What the call does when it is not stopped. -/
def attempt : Except Exc RollbackResult × List (Write P) :=
  c.request.attempt format caeLedger w.store c.env

/-- The writes that the call does before the process stops. -/
def done : List (Write P) :=
  Writes.done c.stop (w.attempt format caeLedger c).2

def Finishes : Prop :=
  Writes.Finishes c.stop (w.attempt format caeLedger c).2

instance : Decidable (w.Finishes format caeLedger c) :=
  inferInstanceAs (Decidable (Writes.Finishes _ _))

def step : World P where
  store := Writes.after Store.write w.store (w.done format caeLedger c)
  reply := if w.Finishes format caeLedger c then some (w.attempt format caeLedger c).1 else none
  inverted := if (w.done format caeLedger c).any Write.isReplace then
      w.inverted ++ rolledBackBy (w.done format caeLedger c)
    else w.inverted
  triggered := if c.request.triggered = true ∧ w.Finishes format caeLedger c then
      w.triggered ++ [(pending caeLedger w.store.ledger, rolledBackBy (w.done format caeLedger c))]
    else w.triggered

variable {format caeLedger w c}

theorem ledger_step : (w.step format caeLedger c).store.ledger =
    w.store.ledger ++ recordsOf (w.done format caeLedger c) :=
  ledger_after _ _

theorem inverted_step : (w.step format caeLedger c).inverted =
    if (w.done format caeLedger c).any Write.isReplace = true then
      w.inverted ++ rolledBackBy (w.done format caeLedger c) else w.inverted := rfl

theorem triggered_step : (w.step format caeLedger c).triggered =
    if c.request.triggered = true ∧ w.Finishes format caeLedger c then
      w.triggered ++ [(pending caeLedger w.store.ledger, rolledBackBy (w.done format caeLedger c))]
    else w.triggered := rfl

theorem reply_step (h : c.stop = none) :
    (w.step format caeLedger c).reply = some (w.attempt format caeLedger c).1 := by
  refine if_pos ?_
  unfold Finishes
  rw [h]
  exact fun n hn => (by cases hn)

theorem done_of_not_stopped (h : c.stop = none) :
    w.done format caeLedger c = (w.attempt format caeLedger c).2 := by
  rw [World.done, h]
  rfl

variable (caeLedger) in
/-- What holds in every state of a run from this constitution. -/
structure Kept (constitution : Option (Constitution P)) (w : World P) : Prop where
  /-- No execution has two records of a rollback. -/
  once : (getRolledBackExecutionIds w.store.ledger).Nodup
  /-- The constitution is the first one with the inverses that were written. -/
  written : ∃ cs : List (Candidate P), (∀ c ∈ cs, c ∈ caeLedger) ∧
    cs.map Candidate.executionId = w.inverted ∧
    w.store.invariants = cs.foldl undo (start constitution).store.invariants
  sealedLedger : Sealed w.store.ledger

theorem kept_start (constitution : Option (Constitution P)) :
    Kept caeLedger constitution (start constitution) :=
  ⟨List.nodup_nil, ⟨[], fun _ hc => absurd hc List.not_mem_nil, rfl, rfl⟩,
    fun _ hr => absurd hr List.not_mem_nil⟩

theorem Kept.step {constitution : Option (Constitution P)} (h : Kept caeLedger constitution w)
    (c : Call P) : Kept caeLedger constitution (w.step format caeLedger c) := by
  obtain ⟨ws, cs, hrollback, hends⟩ := attempt_spec format caeLedger w.store c.env c.request
  have hdone := done_spec hrollback hends c.stop
  have hinitial : rolledBackBy (w.done format caeLedger c) <+: cs.map Candidate.executionId :=
    hdone.elim (fun h => h.2.1) fun h => h.2.1 ▸ List.prefix_rfl
  refine ⟨?_, ?_, ?_⟩
  · rw [ledger_step, getRolledBackExecutionIds_append]
    refine h.once.append (hrollback.nodup.sublist hinitial.sublist) fun id hold hnew => ?_
    obtain ⟨c, hc, rfl⟩ := List.mem_map.mp (hinitial.subset hnew)
    exact hrollback.fresh c hc hold
  · obtain ⟨cs₀, hmem, hids, hentries⟩ := h.written
    rcases hdone with ⟨hnot, -, hsame⟩ | ⟨hreplace, heq, hnew⟩
    · have hany : (w.done format caeLedger c).any Write.isReplace = false :=
        List.any_eq_false.mpr fun w hw => by rw [hnot w hw]; exact Bool.false_ne_true
      refine ⟨cs₀, hmem, ?_, hsame.trans hentries⟩
      rw [inverted_step, if_neg (by rw [hany]; exact Bool.false_ne_true), hids]
    · have hany : (w.done format caeLedger c).any Write.isReplace = true :=
        List.any_eq_true.mpr hreplace
      refine ⟨cs₀ ++ cs, fun c hc => (List.mem_append.mp hc).elim (hmem c) (hrollback.recorded c),
        ?_, ?_⟩
      · rw [inverted_step, if_pos hany, List.map_append, hids]
        exact congrArg _ heq.symm
      · rw [List.foldl_append, ← hentries]
        exact hnew
  · rw [ledger_step]
    intro r hr
    rcases List.mem_append.mp hr with hr | hr
    · exact h.sealedLedger r hr
    · obtain ⟨w', hw', heq⟩ := List.mem_filterMap.mp hr
      have hw' := (Writes.done_prefix _ _).subset hw'
      cases w' with
      | record r' =>
        obtain rfl : r' = r := Option.some.inj heq
        exact ascii_of_record_mem hrollback hends hw'
      | _ => cases heq

/-- After every run, wherever calls stop: no execution has two records of a rollback, and the
constitution is the first one with the inverses that were written. -/
theorem always_kept (constitution : Option (Constitution P)) (cs : List (Call P)) :
    Always (World.step format caeLedger) (Kept caeLedger constitution) (start constitution) cs :=
  always_of_forall_step (fun _ c hw => hw.step c) (kept_start constitution) cs

/-! ### Runs without the two defects -/

variable (caeLedger) in
/-- What is promised of a run from this constitution. -/
structure Lawful (constitution : Option (Constitution P)) (w : World P) : Prop where
  once : (getRolledBackExecutionIds w.store.ledger).Nodup
  /-- The constitution is the first one with the inverses that were written. -/
  written : ∃ cs : List (Candidate P), (∀ c ∈ cs, c ∈ caeLedger) ∧
    cs.map Candidate.executionId = w.inverted ∧
    w.store.invariants = cs.foldl undo (start constitution).store.invariants
  /-- After a completed call the records are those of the inverses that were written. -/
  agree : ∀ r, w.reply = some (.ok r) →
    ∀ id, id ∈ getRolledBackExecutionIds w.store.ledger ↔ id ∈ w.inverted
  /-- A call that the index triggered has rolled back the newest amendment that was not. -/
  newest : ∀ t ∈ w.triggered, ∀ c, Newest c t.1 → t.2 = [c.executionId]

variable (format caeLedger) in
/-- The call does not stop or raise between a record of a rollback and the rename of the
constitution; and if the index triggers it and it is not stopped, the newest executed amendment is
not rolled back and can be recorded, or all are rolled back. -/
structure Steady (w : World P) (c : Call P) : Prop where
  whole : (w.done format caeLedger c).any Write.isReplace = true ∨
    rolledBackBy (w.done format caeLedger c) = []
  newest : c.request.triggered = true → w.Finishes format caeLedger c →
    ∀ r ∈ (getRollbackCandidates caeLedger none).head?, (r.executionId ∉
        getRolledBackExecutionIds w.store.ledger ∧ r.Writable) ∨
      pending caeLedger w.store.ledger = []

theorem mem_getRollbackCandidates_none {r : Candidate P} :
    r ∈ getRollbackCandidates caeLedger none ↔
      r ∈ caeLedger ∧ ∃ t ∈ r.status, t ∈ validCaeStatusesForRollback := by
  unfold getRollbackCandidates
  simp only
  rw [List.mem_insertionSort, List.mem_filter]
  refine and_congr_right fun _ => ?_
  cases r.status with
  | none => simp
  | some t => simp

theorem mem_pending {r : Candidate P} {ledger : List RollbackRecord} :
    r ∈ pending caeLedger ledger ↔ r ∈ getRollbackCandidates caeLedger none ∧
      r.executionId ∉ getRolledBackExecutionIds ledger := by
  rw [mem_getRollbackCandidates_none, pending, List.mem_filter, and_assoc]
  refine and_congr_right fun _ => ?_
  cases r.status with
  | none => simp
  | some t => simp

theorem strLe_head {r c : Candidate P} {rest : List (Candidate P)}
    (h : getRollbackCandidates caeLedger none = r :: rest)
    (hc : c ∈ getRollbackCandidates caeLedger none) : strLe c.timestamp r.timestamp = true := by
  have hsorted : (getRollbackCandidates caeLedger none).Pairwise
      fun a b => strLe b.timestamp a.timestamp = true := by
    have htotal : Std.Total fun a b : Candidate P => strLe b.timestamp a.timestamp = true :=
      ⟨fun a b => strLe_total b.timestamp a.timestamp⟩
    have htrans : IsTrans (Candidate P) fun a b => strLe b.timestamp a.timestamp = true :=
      ⟨fun _ _ _ hab hbc => strLe_trans hbc hab⟩
    exact List.pairwise_insertionSort _ _
  rw [h] at hc hsorted
  rcases List.mem_cons.mp hc with rfl | hc
  · exact (strLe_total _ _).elim id id
  · exact (List.pairwise_cons.mp hsorted).1 c hc

theorem rolledBackBy_of_steady (hdistinct : (caeLedger.map Candidate.timestamp).Nodup)
    (hsealed : Sealed w.store.ledger) (hsteady : w.Steady format caeLedger c)
    (htriggered : c.request.triggered = true) (hfinishes : w.Finishes format caeLedger c)
    {r : Candidate P} (hr : Newest r (pending caeLedger w.store.ledger)) :
    rolledBackBy (w.done format caeLedger c) = [r.executionId] := by
  obtain ⟨hcandidate, hnot⟩ := mem_pending.mp hr.mem
  cases hcandidates : getRollbackCandidates caeLedger none with
  | nil =>
    rw [hcandidates] at hcandidate
    cases hcandidate
  | cons first rest =>
    have hfirst : first ∈ getRollbackCandidates caeLedger none :=
      hcandidates ▸ List.mem_cons_self
    rcases hsteady.newest htriggered hfinishes first (hcandidates ▸ rfl) with ⟨hfresh, hwritable⟩ | hnone
    · have heq : first = r := by
        refine List.inj_on_of_nodup_map hdistinct (mem_getRollbackCandidates_none.mp hfirst).1
          (mem_getRollbackCandidates_none.mp hcandidate).1 ?_
        exact strLe_antisymm (hr.latest first (mem_pending.mpr ⟨hfirst, hfresh⟩))
          (strLe_head hcandidates hcandidate)
      subst heq
      rw [World.done, Writes.done_eq_of_finishes hfinishes]
      cases hrequest : c.request with
      | manual executionId human0Token =>
        rw [hrequest] at htriggered
        cases htriggered
      | auto snapshot =>
        rw [hrequest] at htriggered
        have hcritical : snapshot.critical = true := htriggered
        unfold World.attempt
        rw [hrequest, Request.attempt, runAuto, if_neg (ne_false_of_eq_true hcritical),
          hcandidates]
        obtain ⟨record, constitution, state, hwrites, hids, -⟩ :=
          exists_writes_executeRollback (e := c.env) hsealed
            (mem_getRollbackCandidates_none.mp hfirst).2 hfresh hwritable
            (encodable_of_ascii (s := str "CRITICAL_SCSI") (by decide))
            (encodable_criticalDetail format snapshot.scsi)
        show rolledBackBy (executeRollback w.store c.env [first] _ _).2 = _
        rw [hwrites]
        exact hids
    · have := hr.mem
      rw [hnone] at this
      cases this

/-- While the newest executed amendment is rolled back, a triggered call rolls nothing back, whatever
else is pending. -/
theorem rolledBackBy_of_newest_rolledBack (hsealed : Sealed w.store.ledger)
    (htriggered : c.request.triggered = true) (hstop : c.stop = none) {r : Candidate P}
    (hr : (getRollbackCandidates caeLedger none).head? = some r) (hwritable : r.Writable)
    (hrolled : r.executionId ∈ getRolledBackExecutionIds w.store.ledger) :
    rolledBackBy (w.done format caeLedger c) = [] := by
  rw [done_of_not_stopped hstop]
  cases hrequest : c.request with
  | manual executionId human0Token =>
    rw [hrequest] at htriggered
    cases htriggered
  | auto snapshot =>
    rw [hrequest] at htriggered
    have hcritical : snapshot.critical = true := htriggered
    unfold World.attempt
    rw [hrequest, Request.attempt, runAuto, if_neg (ne_false_of_eq_true hcritical), List.take_one, hr]
    obtain ⟨record, result, hskipped, hids⟩ := exists_executeRollback_skipped (e := c.env) hsealed
      hrolled hwritable (encodable_of_ascii (s := str "CRITICAL_SCSI") (by decide))
      (encodable_criticalDetail format snapshot.scsi)
    show rolledBackBy (executeRollback w.store c.env [r] _ _).2 = _
    rw [hskipped]
    exact hids

variable (caeLedger) in
/-- What steady calls keep. -/
structure KeptRun (constitution : Option (Constitution P)) (w : World P) : Prop
    extends Kept caeLedger constitution w where
  agree : ∀ id, id ∈ getRolledBackExecutionIds w.store.ledger ↔ id ∈ w.inverted
  newest : ∀ t ∈ w.triggered, ∀ c, Newest c t.1 → t.2 = [c.executionId]

theorem KeptRun.step {constitution : Option (Constitution P)}
    (hdistinct : (caeLedger.map Candidate.timestamp).Nodup) (h : KeptRun caeLedger constitution w)
    (hsteady : w.Steady format caeLedger c) :
    KeptRun caeLedger constitution (w.step format caeLedger c) := by
  refine ⟨h.toKept.step c, fun id => ?_, fun t ht r hr => ?_⟩
  · rw [ledger_step, inverted_step, getRolledBackExecutionIds_append, List.mem_append, h.agree id]
    change id ∈ w.inverted ∨ id ∈ rolledBackBy (w.done format caeLedger c) ↔ _
    by_cases hany : (w.done format caeLedger c).any Write.isReplace = true
    · rw [if_pos hany, List.mem_append]
    · rw [if_neg hany, hsteady.whole.resolve_left hany]
      simp
  · rw [triggered_step] at ht
    by_cases htriggered : c.request.triggered = true ∧ w.Finishes format caeLedger c
    · rw [if_pos htriggered, List.mem_append] at ht
      rcases ht with ht | ht
      · exact h.newest t ht r hr
      · obtain rfl := List.mem_singleton.mp ht
        exact rolledBackBy_of_steady hdistinct h.sealedLedger hsteady htriggered.1 htriggered.2 hr
    · rw [if_neg htriggered] at ht
      exact h.newest t ht r hr

/-- Where every call is steady, a run does what is promised. -/
theorem lawful_rollback_of_steady (hdistinct : (caeLedger.map Candidate.timestamp).Nodup)
    (constitution : Option (Constitution P)) {cs : List (Call P)}
    (h : Meets (World.step format caeLedger) (World.Steady format caeLedger) (start constitution)
      cs) :
    Always (World.step format caeLedger) (Lawful caeLedger constitution) (start constitution) cs := by
  have hstart : KeptRun caeLedger constitution (start constitution) :=
    ⟨kept_start constitution, fun _ => Iff.rfl, fun _ ht => absurd ht List.not_mem_nil⟩
  have hkept : Always (World.step format caeLedger) (KeptRun caeLedger constitution)
      (start constitution) cs :=
    always_of_step (fun _ _ hw hsteady => hw.step hdistinct hsteady) hstart h
  exact hkept.imp fun _ hw => ⟨hw.once, hw.written, fun _ _ => hw.agree, hw.newest⟩

/-! ### The two defects -/

/-- An execution, by its identifier and its time. -/
def added (P : Platform) (executionId timestamp : Str) : Candidate P where
  executionId := executionId
  invariantId := str "STABLE-INV-0"
  action := str "ADD"
  status := some (str "EXECUTED")
  timestamp := timestamp
  snapshotBefore := []

def oneAdded (P : Platform) : List (Candidate P) :=
  [added P (str "CAE-TEST-001") (str "2026-05-10T00:00:00+00:00")]

def manualCall (P : Platform) (stop : Option Nat) : Call P :=
  ⟨someEnv, .manual (str "CAE-TEST-001") (str "CAR-ROLLBACK-0001"), stop⟩

theorem attempt_manualCall (w : World P) (stop : Option Nat) :
    w.attempt format (oneAdded P) (manualCall P stop) =
      executeRollback w.store someEnv (oneAdded P) (str "HUMAN0_TOKEN") (str "CAR-ROLLBACK-0001") :=
  rfl

theorem writable_added (timestamp : Str) :
    (added P (str "CAE-TEST-001") timestamp).Writable :=
  ⟨encodable_of_ascii (s := str "CAE-TEST-001") (by decide),
    encodable_of_ascii (s := str "STABLE-INV-0") (by decide),
    encodable_of_ascii (s := str "ADD") (by decide)⟩

variable (format) in
theorem exists_writes_manualCall {w : World P} (hw : w.store.ledger = []) :
    ∃ r constitution state, (w.attempt format (oneAdded P) (manualCall P none)).2 =
        [.record r, .temporary constitution, .replace, .stateTemporary state, .stateReplace] ∧
      rolledBackBy [(.record r : Write P)] = [str "CAE-TEST-001"] ∧ ∀ c ∈ r.digest, c < 128 := by
  rw [attempt_manualCall]
  exact exists_writes_executeRollback (hw ▸ fun _ hr => absurd hr List.not_mem_nil)
    ⟨_, rfl, List.mem_singleton_self _⟩ (hw ▸ List.not_mem_nil) (writable_added _)
    (encodable_of_ascii (by decide)) (encodable_of_ascii (by decide))

variable (format) in
theorem stopped_manualCall {w : World P} (hledger : w.store.ledger = []) :
    ∃ r : RollbackRecord, (∀ c ∈ r.digest, c < 128) ∧
      (w.step format (oneAdded P) (manualCall P (some 1))).store.ledger = [r] ∧
      getRolledBackExecutionIds [r] = [str "CAE-TEST-001"] ∧
      (w.step format (oneAdded P) (manualCall P (some 1))).inverted = w.inverted := by
  obtain ⟨r, constitution, state, hwrites, hids, hsealed⟩ :=
    exists_writes_manualCall format hledger
  have hdone : w.done format (oneAdded P) (manualCall P (some 1)) = [.record r] := by
    show List.take 1 (w.attempt format (oneAdded P) (manualCall P none)).2 = _
    rw [hwrites]
    rfl
  refine ⟨r, hsealed, ?_, hids, ?_⟩
  · rw [ledger_step, hdone, hledger]
    rfl
  · rw [inverted_step, hdone]
    rfl

variable (format) in
theorem retried_manualCall {w : World P} {r : RollbackRecord} (hledger : w.store.ledger = [r])
    (hsealed : ∀ c ∈ r.digest, c < 128)
    (hids : getRolledBackExecutionIds [r] = [str "CAE-TEST-001"]) :
    ∃ result, (w.step format (oneAdded P) (manualCall P none)).reply = some (.ok result) ∧
      str "CAE-TEST-001" ∈
        getRolledBackExecutionIds (w.step format (oneAdded P) (manualCall P none)).store.ledger ∧
      (w.step format (oneAdded P) (manualCall P none)).inverted = w.inverted := by
  have hrolled : str "CAE-TEST-001" ∈ getRolledBackExecutionIds w.store.ledger := by
    rw [hledger, hids]
    exact List.mem_singleton_self _
  have hcall : ∃ r' result, w.attempt format (oneAdded P) (manualCall P none) =
      (.ok result, [.record r']) ∧ rolledBackBy [(.record r' : Write P)] = [] :=
    exists_executeRollback_skipped (hledger ▸ fun x hx => List.mem_singleton.mp hx ▸ hsealed)
      hrolled (writable_added _) (encodable_of_ascii (by decide)) (encodable_of_ascii (by decide))
  obtain ⟨r', result, hattempt, -⟩ := hcall
  refine ⟨result, ?_, ?_, ?_⟩
  · rw [reply_step rfl, hattempt]
  · rw [ledger_step, getRolledBackExecutionIds_append]
    exact List.mem_append_left _ hrolled
  · rw [inverted_step, done_of_not_stopped rfl, hattempt]
    rfl

def someFormat : FormatScsi P :=
  ⟨fun _ => str "0.3000", fun _ => by decide⟩

/-- Not every run does what is promised: a process stops between the record of a rollback and the
constitution. -/
theorem not_always_lawful_rollback :
    ¬ ∀ cs : List (Call reference), Always (World.step someFormat (oneAdded reference))
      (Lawful (oneAdded reference) none) (start none) cs := by
  intro h
  obtain ⟨r, hsealed, hledger, hids, hnone⟩ :=
    stopped_manualCall (P := reference) (w := start none) someFormat rfl
  obtain ⟨result, hreply, hrolled, hinverted⟩ :=
    retried_manualCall someFormat hledger hsealed hids
  have hmem := ((h [manualCall reference (some 1), manualCall reference none]).last.agree result
    hreply _).mp hrolled
  change _ ∈ (World.step someFormat (oneAdded reference) (World.step someFormat (oneAdded reference)
    (start none) (manualCall reference (some 1))) (manualCall reference none)).inverted at hmem
  rw [hinverted, hnone] at hmem
  cases hmem

/-- A call that is not stopped. -/
theorem lawful_rollback_of_steady_manualCall :
    Always (World.step someFormat (oneAdded reference)) (Lawful (oneAdded reference) none)
      (start none) [manualCall reference none] := by
  refine lawful_rollback_of_steady (by decide) none ⟨⟨.inl ?_, fun htriggered => ?_⟩, trivial⟩
  · obtain ⟨r, constitution, state, hwrites, -, -⟩ :=
      exists_writes_manualCall (P := reference) (w := start none) someFormat rfl
    rw [done_of_not_stopped rfl, hwrites]
    rfl
  · cases htriggered

end World

end Adaad.AmendmentRollback

/-!
## Rolling back what the executor has executed

The rollback takes the records whose `status` is `EXECUTED`, and the executor writes no `status`:
no record of the executor is ever a candidate (`getRollbackCandidates_executed`), and nothing that
it has executed is undone (`not_undone`).
-/

namespace Adaad.AmendmentRollback

open Py
open AmendmentExecutor (ExecutionRecord)

variable {P : Platform}

/-- What the rollback reads of the execution ledger. -/
def executed (P : Platform) (s : AmendmentExecutor.Store) : List (Candidate P) :=
  s.executions.map fun r => Candidate.ofDict r.toDict

/-- The files of the rollback, where the constitution is that of the executor. -/
def filesOf (P : Platform) (s : AmendmentExecutor.Store) (ledger : List RollbackRecord) : Store P where
  ledger := ledger
  constitution := s.constitution.map fun c => Constitution.ofDict c.toDict

/-- The call reports one rollback, and the entry of the record is what it was before it; the other
entries stay as they are. -/
structure Undoes (s : Store P) (r : ExecutionRecord)
    (call : Except Exc RollbackResult × List (Write P)) : Prop where
  reported : ∃ result, call.1 = .ok result ∧ result.rolledBack = 1
  entry : (Writes.after Store.write s call.2).invariants.lookup r.invariantId =
    r.priorState.map AmendmentExecutor.Entry.toDict
  others : ∀ id ≠ r.invariantId,
    (Writes.after Store.write s call.2).invariants.lookup id = s.invariants.lookup id

theorem status_ofDict (r : ExecutionRecord) : (Candidate.ofDict (P := P) r.toDict).status = none := by
  rfl

theorem getRollbackCandidates_executed (s : AmendmentExecutor.Store) (target : Option Str) :
    getRollbackCandidates (executed P s) target = [] := by
  have hnone : (executed P s).filter (fun r =>
      (r.status.any fun s => decide (s ∈ validCaeStatusesForRollback)) &&
        decide (target.getD [] = [] ∨ target = some r.executionId)) = [] := by
    rw [List.filter_eq_nil_iff]
    intro candidate hcandidate
    obtain ⟨r, -, rfl⟩ := List.mem_map.mp hcandidate
    rw [status_ofDict]
    exact Bool.false_ne_true
  unfold getRollbackCandidates
  simp only
  rw [hnone]
  rfl

theorem rolledBack_runManual (s : AmendmentExecutor.Store) (t : Store P) (e : Env)
    (executionId token : Str) {result : RollbackResult}
    (h : (runManual (executed P s) t e executionId token).1 = .ok result) :
    result.rolledBack = 0 := by
  unfold runManual at h
  by_cases htoken : token = [] ∨ ¬ human0TriggerTokenPrefix <+: token
  · simp only [if_pos htoken] at h
    split at h
    · cases h
    · rw [← Except.ok.inj h]
      rfl
  · rw [if_neg htoken] at h
    simp only [getRollbackCandidates_executed, if_true] at h
    rw [← Except.ok.inj h]
    rfl

/-- Nothing that the executor has executed is undone: whatever it has written, no call for one of
its records does what it should. -/
theorem not_undone (s : AmendmentExecutor.Store) (ledger : List RollbackRecord) (e : Env)
    (r : ExecutionRecord) (token : Str) :
    ¬ Undoes (filesOf P s ledger) r
      (runManual (executed P s) (filesOf P s ledger) e r.executionId token) := by
  rintro ⟨⟨result, hok, hone⟩, -, -⟩
  rw [rolledBack_runManual s _ e _ _ hok] at hone
  cases hone

/-- The record of one amendment that was executed, and a token of the form that is asked for. -/
theorem not_undone_oneCycle :
    ∃ r, (AmendmentExecutor.World.oneCycle reference .default).store.executions = [r] ∧
      ¬ Undoes (filesOf reference (AmendmentExecutor.World.oneCycle reference .default).store []) r
        (runManual (executed reference (AmendmentExecutor.World.oneCycle reference .default).store)
          (filesOf reference (AmendmentExecutor.World.oneCycle reference .default).store [])
          someEnv r.executionId (str "CAR-ROLLBACK-0001")) := by
  obtain ⟨-, hproposals, -, -⟩ :=
    AmendmentExecutor.World.oneCycle_spec (P := reference) (x := .default) rfl
  obtain ⟨r, hr, -⟩ := List.map_eq_singleton_iff.mp hproposals
  refine ⟨r, hr, ?_⟩
  rintro ⟨⟨result, hok, hone⟩, -, -⟩
  rw [rolledBack_runManual _ _ _ _ _ hok] at hone
  cases hone

end Adaad.AmendmentRollback
