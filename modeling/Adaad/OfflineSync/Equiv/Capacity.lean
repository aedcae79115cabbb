import Adaad.OfflineSync.Equiv.Final

/-!
# The capacity of the queue

`enqueue_operation` does not take more operations than may be pending.  A conflict that is retried
makes an operation pending as well, and does not ask how many there are: a run stays within the
limit exactly when no conflict is retried while the queue is full (`always_bounded_iff`).
-/

namespace Adaad.OfflineSync

open Py

variable {P : Platform} {cfg : Config} {q q' : Queue P} {op op' : Operation P} {opId nowTs : Str}

/-- No more operations are pending than may be. -/
def Bounded (cfg : Config) (q : Queue P) : Prop :=
  (pendingCount q : Int) ≤ cfg.limits.maxPendingOperations

instance : Decidable (Bounded cfg q) :=
  inferInstanceAs (Decidable ((_ : Int) ≤ _))

/-- One more operation may be pending, unless it is a conflict that is retried. -/
def Admits (cfg : Config) (q : Queue P) : Call P → Prop
  | .resolveConflictRetryLocal opId _ =>
    ∀ op, q.ops.lookup opId = some op → op.state = .conflict →
      (pendingCount q : Int) < cfg.limits.maxPendingOperations
  | _ => True

/-! ### Counting -/

def Operation.count (op : Operation P) : Nat :=
  if op.state = .pending then 1 else 0

theorem Operation.count_of_ne (op : Operation P) (h : op.state ≠ .pending) : op.count = 0 :=
  if_neg h

theorem Operation.count_le_one (op : Operation P) : op.count ≤ 1 := by
  unfold count
  split_ifs <;> omega

private theorem countP_cons (m : Str × Operation P) (ops : List (Str × Operation P)) :
    (m :: ops).countP (fun m => m.2.state = .pending) =
      ops.countP (fun m => m.2.state = .pending) + m.2.count := by
  rw [List.countP_cons]
  simp only [decide_eq_true_eq]
  rfl

theorem countP_set (ops : List (Str × Operation P)) (opId : Str) (op' : Operation P) :
    (Assoc.set ops opId op').countP (fun m => m.2.state = .pending) +
        (ops.lookup opId).elim 0 Operation.count =
      ops.countP (fun m => m.2.state = .pending) + op'.count := by
  induction ops with
  | nil => exact countP_cons (opId, op') []
  | cons m ops ih =>
    rw [Assoc.lookup_cons, Assoc.set]
    by_cases hm : m.1 = opId
    · have hnew : ((opId, op') :: ops).countP (fun m => m.2.state = .pending) =
          ops.countP (fun m => m.2.state = .pending) + op'.count := countP_cons _ ops
      rw [if_pos hm, if_pos hm.symm, hnew, countP_cons m, Option.elim_some]
      omega
    · rw [if_neg hm, if_neg (Ne.symm hm), countP_cons, countP_cons]
      omega

theorem countP_set_of_lookup_eq_none {ops : List (Str × Operation P)}
    (h : ops.lookup opId = none) (op' : Operation P) :
    (Assoc.set ops opId op').countP (fun m => m.2.state = .pending) =
      ops.countP (fun m => m.2.state = .pending) + op'.count := by
  have hset := countP_set ops opId op'
  rwa [h, Option.elim_none, Nat.add_zero] at hset

theorem pendingCount_of_set (hops : q'.ops = Assoc.set q.ops opId op')
    (h : q.ops.lookup opId = some op) : pendingCount q' + op.count = pendingCount q + op'.count := by
  unfold pendingCount
  have hset := countP_set q.ops opId op'
  rwa [h, Option.elim_some, ← hops] at hset

theorem pendingCount_le_of_set (hops : q'.ops = Assoc.set q.ops opId op') :
    pendingCount q' ≤ pendingCount q + op'.count := by
  cases h : q.ops.lookup opId with
  | none =>
    unfold pendingCount
    rw [hops, countP_set_of_lookup_eq_none h]
  | some op =>
    have hcount := pendingCount_of_set hops h
    omega

theorem pendingCount_congr (hops : q'.ops = q.ops) : pendingCount q' = pendingCount q := by
  unfold pendingCount
  rw [hops]

/-! ### One call -/

theorem Bounded.of_le (h : Bounded cfg q) (hle : pendingCount q' ≤ pendingCount q) :
    Bounded cfg q' := by
  unfold Bounded at h ⊢
  omega

theorem pendingCount_lt_of_newOperation {operationType ledgerKey : Str}
    {payload : Members P.Float} {baseVersion : Option Int}
    (h : newOperation cfg q operationType ledgerKey payload nowTs baseVersion = .ok op) :
    (pendingCount q : Int) < cfg.limits.maxPendingOperations := by
  by_contra hfull
  unfold newOperation at h
  rw [if_pos (not_lt.mp hfull)] at h
  cases h

theorem bounded_enqueueOperation (h : Bounded cfg q) (operationType ledgerKey : Str)
    (payload : Members P.Float) (baseVersion : Option Int) :
    Bounded cfg (enqueueOperation cfg q operationType ledgerKey payload nowTs baseVersion).2 := by
  unfold enqueueOperation
  cases hnew : newOperation cfg q operationType ledgerKey payload nowTs baseVersion with
  | error e => exact h
  | ok op =>
    have hroom := pendingCount_lt_of_newOperation hnew
    dsimp only
    cases happend : appendEvent q (.enqueue nowTs op) with
    | error e => exact h
    | ok logged =>
      dsimp only
      have hcount : pendingCount { logged with ops := Assoc.set q.ops op.opId op
                                               nextSeq := q.nextSeq + 1 } ≤
          pendingCount q + op.count := pendingCount_le_of_set rfl
      have hone := op.count_le_one
      unfold Bounded
      omega

theorem bounded_markDeliveryAttempt (h : Bounded cfg q) (opId nowTs : Str) :
    Bounded cfg (markDeliveryAttempt cfg q opId nowTs).2 := by
  unfold markDeliveryAttempt
  cases hop : q.ops.lookup opId with
  | none => exact h
  | some op =>
    dsimp only
    by_cases hstate : op.state = .pending
    · rw [if_neg (not_not.mpr hstate)]
      refine h.of_le ?_
      rw [pendingCount_congr (ops_change trims_id)]
      have hcount : pendingCount { q with ops := Assoc.set q.ops opId (op.attempted cfg nowTs) } +
          op.count = pendingCount q + (op.attempted cfg nowTs).count := pendingCount_of_set rfl hop
      have hsame : (op.attempted cfg nowTs).count = op.count := rfl
      omega
    · rw [if_pos hstate]
      exact h

theorem bounded_applyRemoteAck (h : Bounded cfg q) (ack : Members P.Float) (nowTs : Str) :
    Bounded cfg (applyRemoteAck cfg q ack nowTs).2 := by
  cases hcheck : checkAck q ack with
  | error e =>
    unfold applyRemoteAck
    rw [hcheck]
    exact h
  | ok checked =>
    obtain ⟨opId, op, status⟩ := checked
    by_cases hstatus : status = .conflict
    · rw [hstatus] at hcheck
      have hcount := pendingCount_of_set (applyRemoteAck_conflict cfg hcheck nowTs)
        (lookup_of_checkAck hcheck)
      have hnot : (op.conflicting (conflictOf ack nowTs)).count = 0 := rfl
      exact h.of_le (by omega)
    · rcases ops_applyRemoteAck cfg hcheck hstatus nowTs with ⟨hops, -⟩ | hops
      · exact h.of_le (pendingCount_congr hops).le
      · have hcount := pendingCount_of_set hops (lookup_of_checkAck hcheck)
        have hnot : (op.applied ack nowTs).count = 0 := rfl
        exact h.of_le (by omega)

theorem bounded_resolveConflictKeepRemote (h : Bounded cfg q) (opId nowTs : Str) :
    Bounded cfg (resolveConflictKeepRemote cfg q opId nowTs).2 := by
  unfold resolveConflictKeepRemote
  cases hin : inConflict q opId with
  | error e => exact h
  | ok op =>
    refine h.of_le ?_
    dsimp only
    rw [pendingCount_congr (ops_change (trims_trimAckedIndex cfg))]
    refine (pendingCount_le_of_set (q := q) rfl).trans ?_
    exact le_rfl

theorem pendingCount_resolveConflictRetryLocal (hop : q.ops.lookup opId = some op)
    (hstate : op.state = .conflict) (nowTs : Str) :
    pendingCount (resolveConflictRetryLocal q opId nowTs).2 = pendingCount q + 1 := by
  unfold resolveConflictRetryLocal
  rw [inConflict_eq_ok.mpr ⟨hop, hstate⟩]
  dsimp only
  rw [pendingCount_congr (ops_change trims_id)]
  have hcount : pendingCount { q with
        ops := Assoc.set q.ops opId
          { op with state := .pending, nextRetryTs := nowTs, conflict := none }
        conflicts := pop q.conflicts opId } + op.count = pendingCount q +
      ({ op with state := .pending, nextRetryTs := nowTs, conflict := none } : Operation P).count :=
    pendingCount_of_set rfl hop
  rw [op.count_of_ne (by rw [hstate]; decide)] at hcount
  exact hcount

theorem bounded_resolveConflictRetryLocal_iff (h : Bounded cfg q) :
    Bounded cfg (resolveConflictRetryLocal q opId nowTs).2 ↔
      Admits cfg q (.resolveConflictRetryLocal opId nowTs) := by
  cases hin : inConflict q opId with
  | error e =>
    refine iff_of_true ?_ fun op hop hstate => ?_
    · unfold resolveConflictRetryLocal
      rw [hin]
      exact h
    · rw [inConflict_eq_ok.mpr ⟨hop, hstate⟩] at hin
      cases hin
  | ok op =>
    obtain ⟨hop, hstate⟩ := inConflict_eq_ok.mp hin
    have hcount := pendingCount_resolveConflictRetryLocal hop hstate nowTs
    unfold Bounded
    constructor
    · intro hle _ _ _
      omega
    · intro hadmits
      have hroom := hadmits op hop hstate
      omega

theorem bounded_step_iff (h : Bounded cfg q) (call : Call P) :
    Bounded cfg (step cfg q call) ↔ Admits cfg q call := by
  cases call with
  | enqueueOperation operationType ledgerKey payload nowTs baseVersion =>
    exact iff_of_true (bounded_enqueueOperation h operationType ledgerKey payload.items baseVersion)
      trivial
  | markDeliveryAttempt opId nowTs =>
    exact iff_of_true (bounded_markDeliveryAttempt h opId nowTs) trivial
  | applyRemoteAck ack nowTs =>
    exact iff_of_true (bounded_applyRemoteAck h ack.items nowTs) trivial
  | resolveConflictKeepRemote opId nowTs =>
    exact iff_of_true (bounded_resolveConflictKeepRemote h opId nowTs) trivial
  | resolveConflictRetryLocal opId nowTs => exact bounded_resolveConflictRetryLocal_iff h

/-! ### Runs -/

/-- A run from any queue stays within the limit exactly when the queue is within it at first and no
conflict is retried while it is full. -/
theorem always_bounded_iff (cfg : Config) (q : Queue P) (calls : List (Call P)) :
    Run.Always (step cfg) (Bounded cfg) q calls ↔
      Bounded cfg q ∧ Run.Meets (step cfg) (Admits cfg) q calls := by
  have hiff : Bounded cfg q →
      (Run.Always (step cfg) (Bounded cfg) q calls ↔ Run.Meets (step cfg) (Admits cfg) q calls) :=
    Run.always_iff_meets fun _ call hq => bounded_step_iff hq call
  constructor
  · exact fun h => ⟨h.first, (hiff h.first).mp h⟩
  · exact fun h => (hiff h.1).mpr h.2

/-! ### A retry while the queue is full -/

/-- A device that may have one pending operation. -/
def narrowDevice : Config where
  deviceId := str "device-A"
  limits := { maxPendingOperations := 1 }

/-- The id of the operation that `enqueueCall` enqueues with this sequence number. -/
def idOf (P : Platform) (opSeq : Nat) : Str :=
  match newOperation narrowDevice ({ nextSeq := opSeq } : Queue P) (str "create") (str "entry") []
      (str "t0") none with
  | .error _ => []
  | .ok op => op.opId

/-- An operation is in conflict, another one is enqueued, and the conflict is retried. -/
def retryWhenFull (P : Platform) : List (Call P) :=
  [enqueueCall, .applyRemoteAck (ackOf (idOf P 1) .conflict) (str "t1"), enqueueCall,
    .resolveConflictRetryLocal (idOf P 1) (str "t2")]

set_option maxRecDepth 8000 in
theorem exists_newOperation (P : Platform) {n : Nat} (hn : n = 1 ∨ n = 2) :
    ∃ op, newOperation narrowDevice ({ nextSeq := n } : Queue P) (str "create") (str "entry") []
      (str "t0") none = .ok op := by
  rcases hn with rfl | rfl
  · exact ⟨_, rfl⟩
  · exact ⟨_, rfl⟩

theorem exists_step_enqueueCall_narrow {n : Nat} (hn : n = 1 ∨ n = 2) (hseq : q.nextSeq = n)
    (hcount : pendingCount q = 0) :
    ∃ op, Enqueued P op ∧ idOf P n = op.opId ∧
      (step narrowDevice q enqueueCall).ops = Assoc.set q.ops op.opId op ∧
      (step narrowDevice q enqueueCall).nextSeq = n + 1 := by
  obtain ⟨op, hop⟩ := exists_newOperation P hn
  have hid : idOf P n = op.opId := by
    unfold idOf
    rw [hop]
  have hnew : newOperation narrowDevice q (str "create") (str "entry") [] (str "t0") none =
      .ok op := by
    rw [← hop]
    unfold newOperation
    rw [hseq, hcount]
    rfl
  obtain ⟨hops, hnext, -⟩ := step_enqueueCall hnew
  exact ⟨op, (enqueued_newOperation hnew).1, hid, hops, hnext.trans (congrArg (· + 1) hseq)⟩

theorem nextSeq_change (q : Queue P) (op : Operation P) (e : Event P) :
    (change q op e id).2.nextSeq = q.nextSeq := by
  unfold change
  cases happend : appendEvent q e with
  | error x => rfl
  | ok logged =>
    obtain ⟨t, b, -, -, rfl⟩ := appendEvent_eq_ok.mp happend
    rfl

theorem nextSeq_applyRemoteAck_conflict (cfg : Config) {ack : Members P.Float}
    (h : checkAck q ack = .ok (opId, op, .conflict)) (nowTs : Str) :
    (applyRemoteAck cfg q ack nowTs).2.nextSeq = q.nextSeq := by
  unfold applyRemoteAck
  rw [h]
  exact nextSeq_change _ _ _

theorem idOf_one_ne_idOf_two : idOf reference 1 ≠ idOf reference 2 := by decide +kernel

/-- Two operations are pending on a device that may have one. -/
theorem not_always_bounded :
    ¬Run.Always (step narrowDevice) (Bounded narrowDevice) {} (retryWhenFull reference) := by
  intro h
  obtain ⟨-, -, -, hadmits, -⟩ := ((always_bounded_iff _ _ _).mp h).2
  obtain ⟨op₁, henqueued, hid₁, hops₁, hseq₁⟩ := exists_step_enqueueCall_narrow
    (q := ({} : Queue reference)) (.inl rfl) rfl rfl
  generalize step narrowDevice ({} : Queue reference) enqueueCall = q₁ at hops₁ hseq₁ hadmits
  rw [hid₁] at hadmits
  have hne : op₁.opId ≠ [] := by
    intro hnil
    have := henqueued.length
    rw [hnil] at this
    cases this
  have hlookup₁ : q₁.ops.lookup op₁.opId = some op₁ := by
    rw [hops₁, Assoc.lookup_set, if_pos rfl]
  -- the operation is in conflict, and nothing is pending
  have hcheck := checkAck_ackOf .conflict hlookup₁ henqueued.opId hne
  have hops₂ := applyRemoteAck_conflict narrowDevice hcheck (str "t1")
  have hseq₂ := (nextSeq_applyRemoteAck_conflict narrowDevice hcheck (str "t1")).trans hseq₁
  have hcount₂ := pendingCount_of_set hops₂ hlookup₁
  change Admits narrowDevice (step narrowDevice (applyRemoteAck narrowDevice q₁
    (ackOf op₁.opId .conflict).items (str "t1")).2 enqueueCall) _ at hadmits
  generalize (applyRemoteAck narrowDevice q₁ (ackOf op₁.opId .conflict).items (str "t1")).2 = q₂
    at hops₂ hseq₂ hcount₂ hadmits
  have hpending : op₁.count = 1 := if_pos henqueued.state
  have hconflict : (op₁.conflicting (conflictOf (ackOf op₁.opId .conflict).items (str "t1"))).count =
    0 := rfl
  have hcount₁ : pendingCount q₁ = 1 := by
    unfold pendingCount
    rw [hops₁]
    rw [countP_set_of_lookup_eq_none rfl, hpending]
    rfl
  have hzero : pendingCount q₂ = 0 := by omega
  have hlookup₂ : q₂.ops.lookup op₁.opId =
      some (op₁.conflicting (conflictOf (ackOf op₁.opId .conflict).items (str "t1"))) := by
    rw [hops₂, Assoc.lookup_set, if_pos rfl]
  -- so another one is taken, and the queue is full
  obtain ⟨op₂, henqueued₂, hid₂, hops₃, -⟩ := exists_step_enqueueCall_narrow (.inr rfl) hseq₂ hzero
  have hids : op₂.opId ≠ op₁.opId := fun heq =>
    idOf_one_ne_idOf_two (hid₁.trans (heq.symm.trans hid₂.symm))
  have hnone : q₂.ops.lookup op₂.opId = none := by
    rw [hops₂, Assoc.lookup_set, if_neg hids, hops₁, Assoc.lookup_set, if_neg hids]
    rfl
  have hfull : pendingCount (step narrowDevice q₂ enqueueCall) = 1 := by
    unfold pendingCount
    rw [hops₃, countP_set_of_lookup_eq_none hnone]
    show pendingCount q₂ + op₂.count = 1
    rw [hzero, Operation.count, if_pos henqueued₂.state]
  have hroom := hadmits _ (by
    rw [hops₃, Assoc.lookup_set, if_neg hids.symm]
    exact hlookup₂) rfl
  rw [hfull] at hroom
  exact absurd hroom (lt_irrefl _)

end Adaad.OfflineSync
