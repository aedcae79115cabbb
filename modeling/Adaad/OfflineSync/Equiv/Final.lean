import Adaad.OfflineSync.Equiv.Log
import Adaad.Py.Reference

/-!
# An acknowledgement is final

What a remote has acknowledged should stay so: the operation is `acked` from then on, is not
replayed, and a further acknowledgement is answered with the operation as it is.  The queue sees to
this by the index of acked ids, which is neither asked when an acknowledgement reports a conflict
nor kept in step with the states: it is trimmed, and a conflict that is retried leaves the id in it.

`final_iff`: a run is final exactly when each of its steps meets `Settling`.
-/

namespace Adaad.OfflineSync

open Py

variable {P : Platform}

variable {cfg : Config} {q q' : Queue P} {op : Operation P} {e : Event P}

/-! ### Acked operations -/

def Acked (q : Queue P) (opId : Str) : Prop :=
  ∃ op, q.ops.lookup opId = some op ∧ op.state = .acked

theorem acked_congr (h : q'.ops = q.ops) {opId : Str} : Acked q' opId ↔ Acked q opId := by
  unfold Acked
  rw [h]

theorem acked_of_set {opId : Str} (hops : q'.ops = Assoc.set q.ops opId op)
    (h : op.state = .acked) : Acked q' opId :=
  ⟨op, by rw [hops, Assoc.lookup_set, if_pos rfl], h⟩

theorem state_of_acked_set {opId : Str} (hops : q'.ops = Assoc.set q.ops opId op)
    (h : Acked q' opId) : op.state = .acked := by
  obtain ⟨op', hop', hstate⟩ := h
  rw [hops, Assoc.lookup_set, if_pos rfl] at hop'
  rw [Option.some.inj hop']
  exact hstate

theorem Acked.set {opId k : Str} (hops : q'.ops = Assoc.set q.ops k op)
    (hk : Acked q k → op.state = .acked) (h : Acked q opId) : Acked q' opId := by
  by_cases hid : opId = k
  · rw [hid] at h ⊢
    exact acked_of_set hops (hk h)
  · obtain ⟨op', hop', hstate⟩ := h
    refine ⟨op', ?_, hstate⟩
    rw [hops, Assoc.lookup_set, if_neg hid]
    exact hop'

theorem not_acked {opId : Str} (hop : q.ops.lookup opId = some op) (h : op.state ≠ .acked) :
    ¬Acked q opId := by
  rintro ⟨op', hop', hstate⟩
  rw [Option.some.inj (hop.symm.trans hop')] at h
  exact h hstate

/-! ### What each call may do -/

/-- An acknowledgement of an acked operation is answered with the operation and leaves it and the
log, and one that reports a pending operation as applied makes it acked. -/
def AckFinal (cfg : Config) (q : Queue P) : Call P → Prop
  | .applyRemoteAck ack nowTs => ∀ opId op status,
    checkAck q ack.items = .ok (opId, op, status) →
      (op.state = .acked →
        (applyRemoteAck cfg q ack.items nowTs).1 = .ok op ∧
          (applyRemoteAck cfg q ack.items nowTs).2.ops.lookup opId = some op ∧
          (applyRemoteAck cfg q ack.items nowTs).2.log = q.log) ∧
      (op.state = .pending → status = .applied →
        Acked (applyRemoteAck cfg q ack.items nowTs).2 opId)
  | _ => True

/-- No acknowledgement reports a conflict for an acked operation; the index of acked ids has the
operation of an acknowledgement if it is acked, and has it not if it is pending and is now applied;
and an operation that is enqueued does not have the id of one that is acked. -/
def Settling (cfg : Config) (q : Queue P) : Call P → Prop
  | .applyRemoteAck ack _ => ∀ opId op status,
    checkAck q ack.items = .ok (opId, op, status) →
      (op.state = .acked → status ≠ .conflict ∧ opId ∈ q.ackedIds) ∧
      (op.state = .pending → status = .applied → opId ∉ q.ackedIds)
  | .enqueueOperation operationType ledgerKey payload nowTs baseVersion => ∀ op,
    newOperation cfg q operationType ledgerKey payload.items nowTs baseVersion = .ok op →
      (appendEvent q (.enqueue nowTs op)).isOk = true → ¬Acked q op.opId
  | _ => True

theorem applyRemoteAck_conflict (cfg : Config) {ack : Members P.Float} {opId : Str}
    (h : checkAck q ack = .ok (opId, op, .conflict)) (nowTs : Str) :
    (applyRemoteAck cfg q ack nowTs).2.ops =
      Assoc.set q.ops opId (op.conflicting (conflictOf ack nowTs)) := by
  unfold applyRemoteAck
  rw [h]
  exact ops_change trims_id

theorem applyRemoteAck_of_mem {ack : Members P.Float} {opId : Str} {status : AckStatus}
    (h : checkAck q ack = .ok (opId, op, status)) (hstatus : status ≠ .conflict)
    (hmem : opId ∈ q.ackedIds) (nowTs : Str) :
    applyRemoteAck cfg q ack nowTs = (.ok op, q) := by
  unfold applyRemoteAck
  rw [h]
  cases status with
  | conflict => exact absurd rfl hstatus
  | applied | duplicate => exact if_pos hmem

theorem applyRemoteAck_of_not_mem {ack : Members P.Float} {opId : Str} {status : AckStatus}
    (h : checkAck q ack = .ok (opId, op, status)) (hstatus : status ≠ .conflict)
    (hmem : opId ∉ q.ackedIds) (nowTs : Str) :
    applyRemoteAck cfg q ack nowTs =
      change
        { q with
          ops := Assoc.set q.ops opId (op.applied ack nowTs)
          ackedIds := q.ackedIds.insert opId }
        (op.applied ack nowTs) (appliedEvent ack opId status nowTs) (trimAckedIndex cfg) := by
  unfold applyRemoteAck
  rw [h]
  cases status with
  | conflict => exact absurd rfl hstatus
  | applied | duplicate => exact if_neg hmem

theorem ops_applyRemoteAck (cfg : Config) {ack : Members P.Float} {opId : Str} {status : AckStatus}
    (h : checkAck q ack = .ok (opId, op, status)) (hstatus : status ≠ .conflict) (nowTs : Str) :
    (applyRemoteAck cfg q ack nowTs).2.ops = q.ops ∧ opId ∈ q.ackedIds ∨
      (applyRemoteAck cfg q ack nowTs).2.ops = Assoc.set q.ops opId (op.applied ack nowTs) := by
  by_cases hmem : opId ∈ q.ackedIds
  · rw [applyRemoteAck_of_mem h hstatus hmem]
    exact Or.inl ⟨rfl, hmem⟩
  · rw [applyRemoteAck_of_not_mem h hstatus hmem]
    exact Or.inr (ops_change (trims_trimAckedIndex cfg))

theorem ackFinal_iff {ack : Dict P.Float} {nowTs : Str} {opId : Str} {status : AckStatus}
    (h : checkAck q ack.items = .ok (opId, op, status)) :
    ((op.state = .acked →
        (applyRemoteAck cfg q ack.items nowTs).1 = .ok op ∧
          (applyRemoteAck cfg q ack.items nowTs).2.ops.lookup opId = some op ∧
          (applyRemoteAck cfg q ack.items nowTs).2.log = q.log) ∧
      (op.state = .pending → status = .applied →
        Acked (applyRemoteAck cfg q ack.items nowTs).2 opId)) ↔
    (op.state = .acked → status ≠ .conflict ∧ opId ∈ q.ackedIds) ∧
      (op.state = .pending → status = .applied → opId ∉ q.ackedIds) := by
  have hlookup := lookup_of_checkAck h
  refine and_congr (imp_congr_right fun hacked => ?_) (imp_congr_right fun hpending =>
    imp_congr_right fun happlied => ?_)
  · constructor
    · rintro ⟨hreply, hop, hlog⟩
      by_cases hstatus : status = .conflict
      · rw [hstatus] at h
        rw [applyRemoteAck_conflict cfg h, Assoc.lookup_set, if_pos rfl] at hop
        rw [← Option.some.inj hop] at hacked
        cases hacked
      · refine ⟨hstatus, ?_⟩
        by_contra hmem
        rw [applyRemoteAck_of_not_mem h hstatus hmem] at hreply hlog
        exact (log_change_ne (trims_trimAckedIndex cfg) hreply).1 hlog
    · rintro ⟨hstatus, hmem⟩
      rw [applyRemoteAck_of_mem h hstatus hmem]
      exact ⟨rfl, hlookup, rfl⟩
  · have hstatus : status ≠ .conflict := by
      rw [happlied]
      decide
    constructor
    · intro hacked hmem
      rw [applyRemoteAck_of_mem h hstatus hmem] at hacked
      refine not_acked hlookup ?_ hacked
      rw [hpending]
      decide
    · intro hmem
      rw [applyRemoteAck_of_not_mem h hstatus hmem]
      exact acked_of_set (ops_change (trims_trimAckedIndex cfg)) rfl

/-! ### One step -/

def Kept (q q' : Queue P) : Prop :=
  ∀ opId, Acked q opId → Acked q' opId

theorem kept_of_ops (h : q'.ops = q.ops) : Kept q q' :=
  fun _ hacked => (acked_congr h).mpr hacked

theorem kept_of_set {k : Str} (hops : q'.ops = Assoc.set q.ops k op)
    (hk : Acked q k → op.state = .acked) : Kept q q' :=
  fun _ hacked => hacked.set hops hk

theorem kept_applyRemoteAck_iff {ack : Members P.Float} {nowTs opId : Str} {status : AckStatus}
    (h : checkAck q ack = .ok (opId, op, status)) :
    Kept q (applyRemoteAck cfg q ack nowTs).2 ↔ (op.state = .acked → status ≠ .conflict) := by
  have hlookup := lookup_of_checkAck h
  by_cases hstatus : status = .conflict
  · rw [hstatus] at h
    have hops := applyRemoteAck_conflict cfg h nowTs
    constructor
    · intro hkept hacked
      have := state_of_acked_set hops (hkept opId ⟨op, hlookup, hacked⟩)
      cases this
    · intro hacked
      refine kept_of_set hops fun hk => ?_
      by_cases hop : op.state = .acked
      · exact absurd hstatus (hacked hop)
      · exact absurd hk (not_acked hlookup hop)
  · refine iff_of_true ?_ fun _ => hstatus
    rcases ops_applyRemoteAck cfg h hstatus nowTs with ⟨hops, -⟩ | hops
    · exact kept_of_ops hops
    · exact kept_of_set hops fun _ => rfl

theorem kept_enqueueOperation_iff {operationType ledgerKey nowTs : Str}
    {payload : Members P.Float} {baseVersion : Option Int} :
    Kept q (enqueueOperation cfg q operationType ledgerKey payload nowTs baseVersion).2 ↔
      ∀ op, newOperation cfg q operationType ledgerKey payload nowTs baseVersion = .ok op →
        (appendEvent q (.enqueue nowTs op)).isOk = true → ¬Acked q op.opId := by
  unfold enqueueOperation
  cases hnew : newOperation cfg q operationType ledgerKey payload nowTs baseVersion with
  | error e => exact iff_of_true (fun _ h => h) fun op h => by cases h
  | ok op =>
    have hstate : op.state = .pending := (enqueued_newOperation hnew).1.state
    dsimp only
    cases happend : appendEvent q (.enqueue nowTs op) with
    | error e =>
      refine iff_of_true (fun _ h => h) fun op' h hok => ?_
      rw [← Except.ok.inj h, happend] at hok
      cases hok
    | ok logged =>
      dsimp only
      constructor
      · intro hkept op' h _ hacked
        obtain rfl := Except.ok.inj h
        have := state_of_acked_set rfl (hkept op.opId hacked)
        rw [hstate] at this
        cases this
      · intro hnot
        refine kept_of_set rfl fun hacked => absurd hacked (hnot op rfl ?_)
        rw [happend]
        rfl

theorem kept_markDeliveryAttempt (opId nowTs : Str) :
    Kept q (markDeliveryAttempt cfg q opId nowTs).2 := by
  unfold markDeliveryAttempt
  split
  · exact fun _ h => h
  · next op hop =>
    split
    · exact fun _ h => h
    · next hpending =>
      rw [not_not] at hpending
      refine kept_of_set (ops_change trims_id) fun hacked => absurd hacked (not_acked hop ?_)
      rw [hpending]
      decide

theorem kept_resolveConflictKeepRemote (opId nowTs : Str) :
    Kept q (resolveConflictKeepRemote cfg q opId nowTs).2 := by
  unfold resolveConflictKeepRemote
  split
  · exact fun _ h => h
  · exact kept_of_set (ops_change (trims_trimAckedIndex cfg)) fun _ => rfl

theorem kept_resolveConflictRetryLocal (opId nowTs : Str) :
    Kept q (resolveConflictRetryLocal q opId nowTs).2 := by
  unfold resolveConflictRetryLocal
  split
  · exact fun _ h => h
  · next op hop =>
    obtain ⟨hlookup, hstate⟩ := inConflict_eq_ok.mp hop
    refine kept_of_set (ops_change trims_id) fun hacked => absurd hacked (not_acked hlookup ?_)
    rw [hstate]
    decide

theorem settling_iff (call : Call P) :
    Kept q (step cfg q call) ∧ AckFinal cfg q call ↔ Settling cfg q call := by
  cases call with
  | enqueueOperation operationType ledgerKey payload nowTs baseVersion =>
    exact (and_iff_left trivial).trans kept_enqueueOperation_iff
  | markDeliveryAttempt opId nowTs =>
    exact iff_of_true ⟨kept_markDeliveryAttempt opId nowTs, trivial⟩ trivial
  | resolveConflictKeepRemote opId nowTs =>
    exact iff_of_true ⟨kept_resolveConflictKeepRemote opId nowTs, trivial⟩ trivial
  | resolveConflictRetryLocal opId nowTs =>
    exact iff_of_true ⟨kept_resolveConflictRetryLocal opId nowTs, trivial⟩ trivial
  | applyRemoteAck ack nowTs =>
    constructor
    · rintro ⟨-, hfinal⟩ opId op status h
      exact (ackFinal_iff h).mp (hfinal opId op status h)
    · intro hsettling
      refine ⟨?_, fun opId op status h => (ackFinal_iff h).mpr (hsettling opId op status h)⟩
      show Kept q (applyRemoteAck cfg q ack.items nowTs).2
      cases h : checkAck q ack.items with
      | error e =>
        unfold applyRemoteAck
        rw [h]
        exact fun _ hacked => hacked
      | ok checked =>
        obtain ⟨opId, op, status⟩ := checked
        exact (kept_applyRemoteAck_iff h).mpr fun hacked =>
          ((hsettling opId op status h).1 hacked).1

/-! ### The replay -/

/-- The operations are kept by their ids. -/
structure Keyed (q : Queue P) : Prop where
  nodup : (Assoc.keys q.ops).Nodup
  opId : ∀ m ∈ q.ops, m.2.opId = m.1

theorem keyed_empty : Keyed ({} : Queue P) where
  nodup := List.nodup_nil
  opId _ h := absurd h List.not_mem_nil

theorem Keyed.opId_of_lookup (h : Keyed q) {opId : Str} (hop : q.ops.lookup opId = some op) :
    op.opId = opId :=
  h.opId (opId, op) ((Assoc.lookup_eq_some_iff h.nodup).mp hop)

theorem Keyed.of_ops (h : Keyed q) (hops : q'.ops = q.ops) : Keyed q' where
  nodup := hops ▸ h.nodup
  opId := hops ▸ h.opId

theorem Keyed.set (h : Keyed q) {k : Str} (hops : q'.ops = Assoc.set q.ops k op)
    (hk : op.opId = k) : Keyed q' := by
  have hnodup : (Assoc.keys q'.ops).Nodup := hops ▸ Assoc.nodup_keys_set h.nodup k op
  refine ⟨hnodup, ?_⟩
  rintro ⟨k', op'⟩ hmem
  have hlookup := (Assoc.lookup_eq_some_iff hnodup).mpr hmem
  rw [hops, Assoc.lookup_set] at hlookup
  by_cases hkk : k' = k
  · rw [if_pos hkk] at hlookup
    rw [← Option.some.inj hlookup, hk, hkk]
  · rw [if_neg hkk] at hlookup
    exact h.opId_of_lookup hlookup

theorem ops_step (cfg : Config) (q : Queue P) (call : Call P) :
    (step cfg q call).ops = q.ops ∨ ∃ k op', (step cfg q call).ops = Assoc.set q.ops k op' ∧
      (op'.opId = k ∨ ∃ op, q.ops.lookup k = some op ∧ op'.opId = op.opId) := by
  cases call with
  | enqueueOperation operationType ledgerKey payload nowTs baseVersion =>
    show (enqueueOperation _ _ _ _ _ _ _).2.ops = _ ∨
      ∃ k op', (enqueueOperation _ _ _ _ _ _ _).2.ops = _ ∧ _
    unfold enqueueOperation
    split
    · exact Or.inl rfl
    · next op hop =>
      split
      · exact Or.inl rfl
      · exact Or.inr ⟨op.opId, op, rfl, Or.inl rfl⟩
  | markDeliveryAttempt opId nowTs =>
    show (markDeliveryAttempt _ _ _ _).2.ops = _ ∨
      ∃ k op', (markDeliveryAttempt _ _ _ _).2.ops = _ ∧ _
    unfold markDeliveryAttempt
    split
    · exact Or.inl rfl
    · next op hop =>
      split
      · exact Or.inl rfl
      · exact Or.inr ⟨opId, _, ops_change trims_id, Or.inr ⟨op, hop, rfl⟩⟩
  | applyRemoteAck ack nowTs =>
    show (applyRemoteAck _ _ _ _).2.ops = _ ∨ ∃ k op', (applyRemoteAck _ _ _ _).2.ops = _ ∧ _
    cases h : checkAck q ack.items with
    | error e =>
      unfold applyRemoteAck
      rw [h]
      exact Or.inl rfl
    | ok checked =>
      obtain ⟨opId, op, status⟩ := checked
      have hop := lookup_of_checkAck h
      by_cases hstatus : status = .conflict
      · rw [hstatus] at h
        exact Or.inr ⟨opId, _, applyRemoteAck_conflict cfg h nowTs, Or.inr ⟨op, hop, rfl⟩⟩
      · rcases ops_applyRemoteAck cfg h hstatus nowTs with ⟨hops, -⟩ | hops
        · exact Or.inl hops
        · exact Or.inr ⟨opId, _, hops, Or.inr ⟨op, hop, rfl⟩⟩
  | resolveConflictKeepRemote opId nowTs =>
    show (resolveConflictKeepRemote _ _ _ _).2.ops = _ ∨
      ∃ k op', (resolveConflictKeepRemote _ _ _ _).2.ops = _ ∧ _
    unfold resolveConflictKeepRemote
    split
    · exact Or.inl rfl
    · next op hop =>
      have hlookup := (inConflict_eq_ok.mp hop).1
      exact Or.inr ⟨opId, _, ops_change (trims_trimAckedIndex cfg), Or.inr ⟨op, hlookup, rfl⟩⟩
  | resolveConflictRetryLocal opId nowTs =>
    show (resolveConflictRetryLocal _ _ _).2.ops = _ ∨
      ∃ k op', (resolveConflictRetryLocal _ _ _).2.ops = _ ∧ _
    unfold resolveConflictRetryLocal
    split
    · exact Or.inl rfl
    · next op hop =>
      have hlookup := (inConflict_eq_ok.mp hop).1
      exact Or.inr ⟨opId, _, ops_change trims_id, Or.inr ⟨op, hlookup, rfl⟩⟩

theorem keyed_step (cfg : Config) (h : Keyed q) (call : Call P) : Keyed (step cfg q call) := by
  rcases ops_step cfg q call with hops | ⟨k, op', hops, hk | ⟨op, hop, hid⟩⟩
  · exact h.of_ops hops
  · exact h.set hops hk
  · exact h.set hops (hid.trans (h.opId_of_lookup hop))

def Hidden (q : Queue P) : Prop :=
  ∀ opId, Acked q opId → ∀ nowTs, ∀ op ∈ pendingReplay q nowTs, op.opId ≠ opId

theorem Keyed.hidden (h : Keyed q) : Hidden q := by
  intro opId hacked nowTs op hop hid
  unfold pendingReplay at hop
  obtain ⟨hmem, hpending⟩ := List.mem_filter.mp hop
  rw [decide_eq_true_eq] at hpending
  obtain ⟨⟨k, op'⟩, hm, rfl⟩ := List.mem_map.mp ((List.perm_insertionSort _ _).mem_iff.mp hmem)
  have hk : op'.opId = k := h.opId (k, op') hm
  have hlookup := (Assoc.lookup_eq_some_iff h.nodup).mpr hm
  rw [← hk, hid] at hlookup
  refine not_acked hlookup ?_ hacked
  rw [hpending.1]
  decide

/-! ### Runs -/

/-- In a run from an empty log what is acked stays acked and is not replayed, and acknowledgements
are final. -/
structure Final (cfg : Config) (calls : List (Call P)) : Prop where
  kept : Run.Henceforth (step cfg) Kept {} calls
  hidden : Run.Always (step cfg) Hidden {} calls
  acks : Run.Meets (step cfg) (AckFinal cfg) {} calls

theorem final_iff (cfg : Config) (calls : List (Call P)) :
    Final cfg calls ↔ Run.Meets (step cfg) (Settling cfg) {} calls := by
  have hkeyed : Run.Always (step cfg) Keyed ({} : Queue P) calls :=
    Run.always_of_forall_step (I := Keyed) (fun _ call h => keyed_step cfg h call) keyed_empty calls
  have hhidden : Run.Always (step cfg) Hidden ({} : Queue P) calls :=
    hkeyed.imp fun _ h => h.hidden
  have hkept : Run.Henceforth (step cfg) Kept ({} : Queue P) calls ↔
      Run.Meets (step cfg) (fun q call => Kept q (step cfg q call)) {} calls :=
    Run.henceforth_iff_meets (fun _ _ h => h) fun _ _ _ h h' opId hacked => h' opId (h opId hacked)
  have hsteps : Run.Meets (step cfg) (Settling cfg) ({} : Queue P) calls ↔
      Run.Meets (step cfg) (fun q call => Kept q (step cfg q call)) {} calls ∧
        Run.Meets (step cfg) (AckFinal cfg) {} calls := by
    rw [← Run.meets_and]
    exact Run.meets_congr fun q call => (settling_iff call).symm
  rw [hsteps, ← hkept]
  exact ⟨fun h => ⟨h.kept, h.acks⟩, fun h => ⟨h.1, hhidden, h.2⟩⟩

/-! ### A late conflict -/

def device : Config where
  deviceId := str "device-A"

def enqueueCall : Call P :=
  .enqueueOperation (str "create") (str "entry") .empty (str "t0") none

def ackOf (opId : Str) (status : AckStatus) : Dict P.Float where
  items := [(.str (str "op_id"), .str opId), (.str (str "status"), .str status.text)]
  wf := by simp [Value.WF, WFMembers, str]

/-- The id of the operation that `enqueueCall` enqueues into an empty queue. -/
def firstId (P : Platform) : Str :=
  match newOperation device ({} : Queue P) (str "create") (str "entry") [] (str "t0") none with
  | .error _ => []
  | .ok op => op.opId

/-- The remote reports that the operation was applied, and then that it is in conflict. -/
def lateConflict (P : Platform) : List (Call P) :=
  [enqueueCall, .applyRemoteAck (ackOf (firstId P) .applied) (str "t1"),
    .applyRemoteAck (ackOf (firstId P) .conflict) (str "t2")]

theorem strip_eq_self_of_isHexDigit {s : Str} (h : ∀ c ∈ s, isHexDigit c = true) : strip s = s := by
  have hspace : ∀ c ∈ s, isSpace c = false := fun c hc => isSpace_of_isHexDigit (h c hc)
  exact stripBy_eq_self (fun c hc => hspace c (List.mem_of_mem_head? hc))
    fun c hc => hspace c (List.mem_of_getLast? hc)

theorem checkAck_ackOf {opId : Str} (status : AckStatus) (hop : q.ops.lookup opId = some op)
    (hhex : ∀ c ∈ opId, isHexDigit c = true) (hne : opId ≠ []) :
    checkAck q (ackOf opId status).items = .ok (opId, op, status) := by
  have hid : strip opId = opId := strip_eq_self_of_isHexDigit hhex
  have hget : (get (ackOf (P := P) opId status).items (str "op_id")).getD (.str []) = .str opId :=
    rfl
  have hstatus : AckStatus.ofValue (get (ackOf (P := P) opId status).items (str "status")) =
      .ok status := by
    cases status <;> rfl
  unfold checkAck
  dsimp only
  rw [hget, toStr, hid, if_neg hne, hop]
  dsimp only
  rw [hstatus]
  rfl

theorem encodable_cons {k : Str} {v : P.Obj} {ms : Members P.Float} (hk : ∀ c ∈ k, c < 128)
    (hv : Encodable v.chars) (hms : Encodable (charsMembers ms)) :
    Encodable (charsMembers ((.str k, v) :: ms)) :=
  (encodable_of_ascii hk).append (hv.append hms)

set_option maxRecDepth 8000 in
theorem exists_firstOperation (P : Platform) :
    ∃ op, newOperation device ({} : Queue P) (str "create") (str "entry") [] (str "t0") none =
      .ok op :=
  ⟨_, rfl⟩

theorem encodable_enqueueEvent (hop : Enqueued P op) (htype : op.operationType = str "create")
    (hkey : op.ledgerKey = str "entry") (hpayload : op.payload = .dict [])
    (hversion : op.baseVersion = none) (hts : op.enqueuedTs = str "t0")
    (hretry : op.nextRetryTs = str "t0") :
    Encodable (Value.dict (Event.enqueue (str "t0") op).toDict).chars := by
  have hascii : ∀ {s : Str}, (∀ c ∈ s, c < 128) → Encodable (Value.str s : P.Obj).chars :=
    encodable_of_ascii
  have hoperation : Encodable (charsMembers op.toDict) := by
    unfold Operation.toDict
    rw [htype, hkey, hpayload, hversion, hts, hretry, hop.state]
    refine encodable_cons (by decide) (hascii (by decide)) ?_
    refine encodable_cons (by decide) (hascii (ascii_of_isHexDigit hop.opId)) ?_
    refine encodable_cons (by decide) encodable_nil ?_
    refine encodable_cons (by decide) (hascii (by decide)) ?_
    refine encodable_cons (by decide) (hascii (by decide)) ?_
    refine encodable_cons (by decide) encodable_nil ?_
    refine encodable_cons (by decide) encodable_nil ?_
    refine encodable_cons (by decide) (hascii (by decide)) ?_
    refine encodable_cons (by decide) (hascii (by decide)) ?_
    refine encodable_cons (by decide) encodable_nil ?_
    refine encodable_cons (by decide) (hascii (by decide)) ?_
    exact encodable_cons (by decide) (hascii (ascii_of_isHexDigit hop.digest)) encodable_nil
  refine encodable_cons (by decide) (hascii (by decide)) ?_
  refine encodable_cons (by decide) (hascii (by decide)) ?_
  exact encodable_cons (by decide) hoperation encodable_nil

theorem step_enqueueCall
    (hop : newOperation cfg q (str "create") (str "entry") [] (str "t0") none = .ok op) :
    (step cfg q enqueueCall).ops = Assoc.set q.ops op.opId op ∧
      (step cfg q enqueueCall).nextSeq = q.nextSeq + 1 ∧
      (step cfg q enqueueCall).ackedIds = q.ackedIds := by
  obtain ⟨hnew, htype, hkey, hpayload, hversion, hts, hretry⟩ := enqueued_newOperation hop
  have hplain : (Value.dict (Event.enqueue (str "t0") op).toDict).Plain := by
    simp [Event.toDict, Operation.toDict, Value.Plain, PlainMembers, Key.isString, hpayload,
      hversion, versionValue]
  obtain ⟨logged, hlogged⟩ := exists_appendEvent q hplain
    (encodable_enqueueEvent hnew htype hkey hpayload hversion hts hretry)
  have hstep : step cfg q enqueueCall =
      { logged with ops := Assoc.set q.ops op.opId op, nextSeq := q.nextSeq + 1 } := by
    unfold step enqueueCall Call.run
    dsimp only
    unfold enqueueOperation
    rw [Dict.items_empty, hop]
    dsimp only
    rw [hlogged]
  obtain ⟨t, b, -, -, rfl⟩ := appendEvent_eq_ok.mp hlogged
  rw [hstep]
  exact ⟨rfl, rfl, rfl⟩

theorem exists_step_enqueueCall (P : Platform) :
    ∃ op, Enqueued P op ∧ firstId P = op.opId ∧
      (step device ({} : Queue P) enqueueCall).ops = [(op.opId, op)] ∧
      (step device ({} : Queue P) enqueueCall).ackedIds = [] := by
  obtain ⟨op, hop⟩ := exists_firstOperation P
  have hid : firstId P = op.opId := by
    unfold firstId
    rw [hop]
  obtain ⟨hops, -, hacked⟩ := step_enqueueCall hop
  exact ⟨op, (enqueued_newOperation hop).1, hid, hops, hacked⟩

/-- The operation that was applied is in conflict. -/
theorem not_final : ¬Final device (lateConflict reference) := by
  intro hfinal
  obtain ⟨op, hop, hid, hops, hacked⟩ := exists_step_enqueueCall reference
  have hkept := hfinal.kept.2.2.1.2
  rw [hid] at hkept
  have hne : op.opId ≠ [] := by
    intro h
    have := hop.length
    rw [h] at this
    cases this
  have hlookup : (step device ({} : Queue reference) enqueueCall).ops.lookup op.opId = some op := by
    rw [hops, Assoc.lookup_cons, if_pos rfl]
  have happlied := checkAck_ackOf .applied hlookup hop.opId hne
  -- after the first acknowledgement it is acked
  have hsecond : Acked (applyRemoteAck device (step device ({} : Queue reference) enqueueCall)
      (ackOf op.opId .applied).items (str "t1")).2 op.opId := by
    rcases ops_applyRemoteAck device happlied (by decide) (str "t1") with ⟨-, hmem⟩ | hset
    · rw [hacked] at hmem
      exact absurd hmem List.not_mem_nil
    · exact acked_of_set hset rfl
  have hthird := hkept op.opId hsecond
  obtain ⟨op₂, hop₂, -⟩ := hsecond
  have hconflict := checkAck_ackOf .conflict hop₂ hop.opId hne
  have hops₃ := applyRemoteAck_conflict device hconflict (str "t2")
  have hstate := state_of_acked_set hops₃ hthird
  cases hstate

end Adaad.OfflineSync
