import Adaad.OfflineSync.Equiv.Final
import Adaad.OfflineSync.Equiv.Replay

/-!
# A queue that is opened again

What is seen of a queue should not depend on whether it has been opened again.  It does not as long
as each change that is made in memory is also logged, in texts that `splitlines` does not break, and
no conflict is settled in favour of the remote (`always_reopens`): that is logged as an
acknowledgement, and in replay an acknowledgement leaves the conflict where it is
(`not_reopens_of_keepRemote`).
-/

namespace Adaad.OfflineSync

open Py

variable {P : Platform} {cfg : Config} {q q' : Queue P} {op : Operation P} {e : Event P}

/-! ### What is seen -/

def VisibleConflict.canonical (c : VisibleConflict P) : VisibleConflict P :=
  { c with conflict := c.conflict.canonical }

/-- The operations, `user_visible_conflicts` and the next sequence number; the order of the keys of
a `dict` is not seen. -/
structure Observation (P : Platform) where
  ops : List (Str × Operation P)
  conflicts : Option (List (VisibleConflict P))
  nextSeq : Nat

def Queue.observe (q : Queue P) : Observation P where
  ops := Assoc.mapValues Operation.canonical q.ops
  conflicts := (userVisibleConflicts q).map (·.map VisibleConflict.canonical)
  nextSeq := q.nextSeq

/-- The queue that is opened from the log looks the same. -/
def Reopens (q : Queue P) : Prop :=
  ∃ q', openLog q.log = .ok q' ∧ q'.observe = q.observe

theorem userVisibleConflicts_canonical
    (hops : q'.ops = Assoc.mapValues Operation.canonical q.ops)
    (hconflicts : q'.conflicts = Assoc.mapValues Conflict.canonical q.conflicts) :
    userVisibleConflicts q' =
      (userVisibleConflicts q).map (·.map VisibleConflict.canonical) := by
  have hrows : (q'.conflicts.mapM fun m => (q'.ops.lookup m.1).map fun op =>
        ({ opId := m.1, ledgerKey := op.ledgerKey, conflict := m.2 } : VisibleConflict P)) =
      (q.conflicts.mapM fun m => (q.ops.lookup m.1).map fun op =>
        ({ opId := m.1, ledgerKey := op.ledgerKey, conflict := m.2 } : VisibleConflict P)).map
          (·.map VisibleConflict.canonical) := by
    rw [hops, hconflicts]
    generalize q.conflicts = conflicts
    induction conflicts with
    | nil => rfl
    | cons m conflicts ih =>
      show ((m.1, m.2.canonical) :: Assoc.mapValues Conflict.canonical conflicts).mapM _ = _
      rw [List.mapM_cons, List.mapM_cons, ih, Assoc.lookup_mapValues]
      cases q.ops.lookup m.1 with
      | none => rfl
      | some op =>
        cases conflicts.mapM fun m => (q.ops.lookup m.1).map fun op =>
            ({ opId := m.1, ledgerKey := op.ledgerKey, conflict := m.2 } : VisibleConflict P) with
        | none => rfl
        | some rows => rfl
  unfold userVisibleConflicts
  rw [hrows, Option.map_map, Option.map_map]
  refine congrArg (Option.map · _) (funext fun rows => ?_)
  exact (List.map_insertionSort _ _ VisibleConflict.canonical rows fun a _ b _ => Iff.rfl).symm

/-! ### The invariant -/

/-- Replay gives what is in memory. -/
structure Rebuilds (q : Queue P) : Prop where
  ops : (rebuild q.events).ops = q.ops
  conflicts : (rebuild q.events).conflicts = q.conflicts
  nextSeq : (rebuild q.events).maxSeq + 1 = q.nextSeq

theorem openLog_of_logged (h : Logged q) :
    ∃ q', openLog q.log = .ok q' ∧ q'.ops = (rebuild q.events).canonical.ops ∧
      q'.conflicts = (rebuild q.events).canonical.conflicts ∧
      q'.nextSeq = (rebuild q.events).maxSeq + 1 ∧
      Assoc.mapValues Operation.canonical q'.ops = q'.ops ∧
      Assoc.mapValues Conflict.canonical q'.conflicts = q'.conflicts := by
  have htwice : (rebuild q.events).canonical.canonical = (rebuild q.events).canonical := by
    rw [← rebuild_canonical, ← rebuild_canonical, List.map_map]
    refine congrArg rebuild (List.map_congr_left fun e he => ?_)
    exact (h.recorded e he).canonical_canonical
  unfold openLog
  rw [loadEvents_of_logged h]
  refine ⟨_, rfl, ?_⟩
  dsimp only
  rw [rebuild_canonical]
  exact ⟨rfl, rfl, rfl, congrArg Rebuilt.ops htwice, congrArg Rebuilt.conflicts htwice⟩

theorem reopens_of_rebuilds (h : Logged q) (hrebuilds : Rebuilds q) : Reopens q := by
  obtain ⟨q', hopen, hops, hconflicts, hseq, hops', hconflicts'⟩ := openLog_of_logged h
  refine ⟨q', hopen, ?_⟩
  have hopsq : q'.ops = Assoc.mapValues Operation.canonical q.ops := by
    rw [hops, ← hrebuilds.ops]
    rfl
  have hconflictsq : q'.conflicts = Assoc.mapValues Conflict.canonical q.conflicts := by
    rw [hconflicts, ← hrebuilds.conflicts]
    rfl
  have hself : userVisibleConflicts q' =
      (userVisibleConflicts q').map (·.map VisibleConflict.canonical) :=
    userVisibleConflicts_canonical hops'.symm hconflicts'.symm
  unfold Queue.observe
  rw [← hself, userVisibleConflicts_canonical hopsq hconflictsq, hops', hopsq, hseq,
    hrebuilds.nextSeq]

/-! ### What a call logs -/

/-- The value can be written into the log, and a line of the log has the whole of it. -/
structure Writable (v : P.Obj) : Prop where
  plain : v.Plain
  unbroken : Unbroken v
  chars : Encodable v.chars

/-- A call of `enqueue_operation` that raises nothing is given plain data without a separator, and
the other calls, where they log something, data that can also be written; no conflict is settled by
keeping the remote. -/
def Recoverable (cfg : Config) (q : Queue P) : Call P → Prop
  | .enqueueOperation operationType ledgerKey payload nowTs baseVersion => ∀ op,
    newOperation cfg q operationType ledgerKey payload.items nowTs baseVersion = .ok op →
      (appendEvent q (.enqueue nowTs op)).isOk = true →
        (Value.dict payload.items).Plain ∧ Unbroken (.dict payload.items) ∧
          ∀ s ∈ [operationType, ledgerKey, nowTs], Unbroken (.str s : P.Obj)
  | .markDeliveryAttempt opId nowTs => ∀ op,
    q.ops.lookup opId = some op → op.state = .pending → Writable (.str nowTs : P.Obj)
  | .applyRemoteAck ack nowTs => ∀ opId op status,
    checkAck q ack.items = .ok (opId, op, status) →
      (status = .conflict → Writable (.str nowTs : P.Obj) ∧
        Writable ((get ack.items (str "reason")).getD .none) ∧
        Writable ((get ack.items (str "remote_snapshot")).getD .none)) ∧
      (status ≠ .conflict → opId ∉ q.ackedIds → Writable (.str nowTs : P.Obj) ∧
        Writable ((get ack.items (str "remote_version")).getD .none))
  | .resolveConflictKeepRemote opId _ => ∀ op, inConflict q opId ≠ .ok op
  | .resolveConflictRetryLocal opId nowTs => ∀ op,
    inConflict q opId = .ok op → Writable (.str nowTs : P.Obj)

theorem writable_of_ascii {s : Str} (h : ∀ c ∈ s, c < 128) : Writable (.str s : P.Obj) :=
  ⟨trivial, unbroken_str_of_ascii h, encodable_of_ascii h⟩

theorem writable_append {s t : Str} (hs : Writable (.str s : P.Obj))
    (ht : Writable (.str t : P.Obj)) : Writable (.str (s ++ t) : P.Obj) :=
  ⟨trivial, unbroken_str_append.mpr ⟨hs.unbroken, ht.unbroken⟩,
    Encodable.append hs.chars ht.chars⟩

theorem wf_getD_get (d : Dict P.Float) (k : Str) : ((get d.items k).getD .none).WF := by
  cases hget : get d.items k with
  | none => exact trivial
  | some v => exact wfMembers_iff.mp d.wf.2 _ (mem_of_get_eq_some hget)

/-- What is logged can be written and comes back. -/
structure Event.Written (e : Event P) : Prop where
  texts : ∀ s ∈ e.texts, Writable (.str s : P.Obj)
  data : ∀ v ∈ e.data, v.WF ∧ Writable v

theorem Event.Written.recorded (h : e.Written) (hfresh : ∀ ts op, e = .enqueue ts op → op.Fresh) :
    Recorded e where
  texts s hs := (h.texts s hs).unbroken
  data v hv := ⟨(h.data v hv).2.plain, (h.data v hv).1, (h.data v hv).2.unbroken⟩
  fresh := hfresh

theorem Event.Written.encodable (h : e.Written) : Encodable (Value.dict e.toDict).chars := by
  refine Event.toDict_of_parts (Q := fun v => Encodable v.chars) encodable_nil
    (fun _ => encodable_nil) (fun _ => encodable_nil) (fun s hs => encodable_of_ascii hs) ?_
    (fun s hs => (h.texts s hs).chars)
    fun v hv => (h.data v hv).2.chars
  intro names ms hkeys _ hascii hms c hc
  obtain ⟨m, hm, hc | hc⟩ := mem_charsMembers.mp hc
  · have hmem : m.1 ∈ names.map Key.str := hkeys ▸ List.mem_map_of_mem hm
    obtain ⟨s, hs, hkey⟩ := List.mem_map.mp hmem
    rw [← hkey] at hc
    exact encodable_of_ascii (hascii s hs) c hc
  · exact hms m hm c hc

/-! ### One step -/

/-- The log and replay keep up with the memory. -/
structure Faithful (q : Queue P) : Prop where
  logged : Logged q
  rebuilds : Rebuilds q
  ids : ∀ k ∈ Assoc.keys q.ops, ∀ c ∈ k, isHexDigit c = true

theorem faithful_empty : Faithful ({} : Queue P) where
  logged := logged_empty
  rebuilds := ⟨rfl, rfl, rfl⟩
  ids _ h := absurd h List.not_mem_nil

theorem Faithful.isHexDigit_of_lookup (h : Faithful q) {opId : Str}
    (hop : q.ops.lookup opId = some op) : ∀ c ∈ opId, isHexDigit c = true :=
  h.ids opId (Assoc.mem_keys_iff.mpr ⟨op, hop⟩)

theorem Faithful.writable_of_lookup (h : Faithful q) {opId : Str}
    (hop : q.ops.lookup opId = some op) : Writable (.str opId : P.Obj) :=
  writable_of_ascii (ascii_of_isHexDigit (h.isHexDigit_of_lookup hop))

theorem Faithful.change (h : Faithful q) {q₀ : Queue P} {after : Queue P → Queue P}
    (hafter : Trims after) {opId : Str} {op₀ : Operation P} (hop : q.ops.lookup opId = some op₀)
    (he : e.Written) (hkind : ∀ ts op, e ≠ .enqueue ts op)
    (hlog : q₀.log = q.log) (hevents : q₀.events = q.events) (hseq : q₀.nextSeq = q.nextSeq)
    (hops : q₀.ops = Assoc.set q.ops opId op)
    (hreplay : ∀ s : Rebuilt P, s.ops = q.ops → s.conflicts = q.conflicts →
      (rebuildEvent s e).ops = Assoc.set q.ops opId op ∧
        (rebuildEvent s e).conflicts = q₀.conflicts ∧ (rebuildEvent s e).maxSeq = s.maxSeq) :
    Faithful (OfflineSync.change q₀ op e after).2 := by
  have hrecorded := he.recorded fun ts op heq => absurd heq (hkind ts op)
  obtain ⟨logged, hlogged⟩ := exists_appendEvent q₀ hrecorded.lasting.plain he.encodable
  have hq₀ : Logged q₀ := ⟨hevents ▸ h.logged.recorded, by rw [hlog, hevents]; exact h.logged.log⟩
  have hafterwards := hq₀.append hrecorded hlogged
  obtain ⟨hreplayOps, hreplayConflicts, hreplaySeq⟩ :=
    hreplay (rebuild q.events) h.rebuilds.ops h.rebuilds.conflicts
  unfold OfflineSync.change
  rw [hlogged]
  dsimp only
  obtain ⟨ids, hids⟩ := hafter logged
  obtain ⟨t, b, -, -, rfl⟩ := appendEvent_eq_ok.mp hlogged
  rw [hids]
  refine ⟨⟨hafterwards.recorded, hafterwards.log⟩, ⟨?_, ?_, ?_⟩, ?_⟩
  · show (rebuild (q₀.events ++ [e])).ops = q₀.ops
    rw [hevents, rebuild_concat, hreplayOps, hops]
  · show (rebuild (q₀.events ++ [e])).conflicts = q₀.conflicts
    rw [hevents, rebuild_concat, hreplayConflicts]
  · show (rebuild (q₀.events ++ [e])).maxSeq + 1 = q₀.nextSeq
    rw [hevents, rebuild_concat, hreplaySeq, hseq, h.rebuilds.nextSeq]
  · intro k hk
    have hk : k ∈ Assoc.keys q₀.ops := hk
    rw [hops] at hk
    rcases Assoc.mem_keys_set.mp hk with rfl | hk
    · exact h.isHexDigit_of_lookup hop
    · exact h.ids k hk

theorem Faithful.markDeliveryAttempt (h : Faithful q) {opId nowTs : Str}
    (hok : Recoverable cfg q (.markDeliveryAttempt opId nowTs)) :
    Faithful (OfflineSync.markDeliveryAttempt cfg q opId nowTs).2 := by
  unfold OfflineSync.markDeliveryAttempt
  split
  · exact h
  · next op hop =>
    split
    · exact h
    · next hpending =>
      have hts := hok op hop (not_not.mp hpending)
      have hbackoff : ∀ i : Int, Writable (.str (str "+" ++ (intText i ++ str "s")) : P.Obj) := by
        intro i
        refine writable_append (writable_of_ascii (by decide)) (writable_append ?_ ?_)
        · exact writable_of_ascii fun c hc => by
            have := (printable_of_mem_intText hc).2
            omega
        · exact writable_of_ascii (by decide)
      refine h.change trims_id hop ⟨?_, fun _ hv => absurd hv List.not_mem_nil⟩
        (fun _ _ heq => by cases heq)
        rfl rfl rfl rfl fun s hops hconflicts => ?_
      · simp only [attemptEvent, Event.texts, List.forall_mem_cons, List.not_mem_nil, false_imp_iff,
          implies_true, and_true]
        exact ⟨hts, h.writable_of_lookup hop, writable_append hts (hbackoff _)⟩
      · have hlookup : s.ops.lookup opId = some op := by rw [hops, hop]
        unfold rebuildEvent attemptEvent
        dsimp only
        rw [hlookup]
        exact ⟨by rw [hops]; rfl, hconflicts, rfl⟩

theorem Faithful.resolveConflictRetryLocal (h : Faithful q) {opId nowTs : Str}
    (hok : Recoverable cfg q (.resolveConflictRetryLocal opId nowTs)) :
    Faithful (OfflineSync.resolveConflictRetryLocal q opId nowTs).2 := by
  unfold OfflineSync.resolveConflictRetryLocal
  split
  · exact h
  · next op hconflict =>
    obtain ⟨hop, -⟩ := inConflict_eq_ok.mp hconflict
    refine h.change trims_id hop ⟨?_, fun _ hv => absurd hv List.not_mem_nil⟩
        (fun _ _ heq => by cases heq)
      rfl rfl rfl rfl fun s hops hconflicts => ?_
    · simp only [Event.texts, List.forall_mem_cons, List.not_mem_nil, false_imp_iff, implies_true,
        and_true]
      exact ⟨hok op hconflict, h.writable_of_lookup hop, writable_of_ascii (by decide)⟩
    · have hlookup : s.ops.lookup opId = some op := by rw [hops, hop]
      unfold rebuildEvent
      dsimp only
      rw [hlookup]
      exact ⟨by rw [hops], by rw [hconflicts], rfl⟩

theorem writable_reason {ack : Members P.Float} {nowTs : Str}
    (h : Writable ((get ack (str "reason")).getD .none)) : Writable (conflictOf ack nowTs).reason := by
  unfold conflictOf
  cases hget : get ack (str "reason") with
  | none => exact writable_of_ascii (by decide)
  | some v =>
    rw [hget] at h
    exact h

theorem wf_reason (ack : Dict P.Float) (nowTs : Str) : (conflictOf ack.items nowTs).reason.WF := by
  have hwf := wf_getD_get ack (str "reason")
  unfold conflictOf
  cases hget : get ack.items (str "reason") with
  | none => exact trivial
  | some v =>
    rw [hget] at hwf
    exact hwf

theorem Faithful.applyRemoteAck (h : Faithful q) {ack : Dict P.Float} {nowTs : Str}
    (hok : Recoverable cfg q (.applyRemoteAck ack nowTs)) :
    Faithful (OfflineSync.applyRemoteAck cfg q ack.items nowTs).2 := by
  cases hcheck : checkAck q ack.items with
  | error e =>
    unfold OfflineSync.applyRemoteAck
    rw [hcheck]
    exact h
  | ok checked =>
    obtain ⟨opId, op, status⟩ := checked
    have hop := lookup_of_checkAck hcheck
    obtain ⟨hconflict, happlied⟩ := hok opId op status hcheck
    by_cases hstatus : status = .conflict
    · obtain ⟨hts, hreason, hsnapshot⟩ := hconflict hstatus
      rw [hstatus] at hcheck
      unfold OfflineSync.applyRemoteAck
      rw [hcheck]
      refine h.change trims_id hop ⟨?_, ?_⟩ (fun _ _ heq => by cases heq) rfl rfl rfl rfl
        fun s hops hconflicts => ?_
      · simp only [Event.texts, List.forall_mem_cons, List.not_mem_nil, false_imp_iff, implies_true,
          and_true]
        exact ⟨hts, h.writable_of_lookup hop, hts⟩
      · simp only [Event.data, List.forall_mem_cons, List.not_mem_nil, false_imp_iff, implies_true,
          and_true]
        exact ⟨⟨wf_reason ack nowTs, writable_reason hreason⟩, wf_getD_get ack _, hsnapshot⟩
      · have hlookup : s.ops.lookup opId = some op := by rw [hops, hop]
        unfold rebuildEvent
        dsimp only
        rw [hlookup]
        exact ⟨by rw [hops]; rfl, by rw [hconflicts], rfl⟩
    · by_cases hmem : opId ∈ q.ackedIds
      · rw [applyRemoteAck_of_mem hcheck hstatus hmem]
        exact h
      · obtain ⟨hts, hversion⟩ := happlied hstatus hmem
        rw [applyRemoteAck_of_not_mem hcheck hstatus hmem]
        refine h.change (trims_trimAckedIndex cfg) hop ⟨?_, ?_⟩ (fun _ _ heq => by cases heq)
          rfl rfl rfl rfl
          fun s hops hconflicts => ?_
        · simp only [appliedEvent, Event.texts, List.forall_mem_cons, List.not_mem_nil,
            false_imp_iff, implies_true, and_true]
          refine ⟨hts, h.writable_of_lookup hop, ?_⟩
          cases status <;> exact writable_of_ascii (by decide)
        · intro v hv
          rw [List.mem_singleton.mp hv]
          exact ⟨wf_getD_get ack _, hversion⟩
        · have hlookup : s.ops.lookup opId = some op := by rw [hops, hop]
          unfold rebuildEvent appliedEvent
          dsimp only
          rw [hlookup]
          exact ⟨by rw [hops]; rfl, hconflicts, rfl⟩

theorem fresh_newOperation {operationType ledgerKey nowTs : Str} {payload : Members P.Float}
    {baseVersion : Option Int}
    (h : newOperation cfg q operationType ledgerKey payload nowTs baseVersion = .ok op) :
    op.Fresh ∧ op.opSeq = q.nextSeq := by
  unfold newOperation at h
  split at h
  · cases h
  · obtain ⟨seed, -, h⟩ := bind_eq_ok.mp h
    obtain ⟨digest, -, h⟩ := bind_eq_ok.mp h
    obtain rfl := Except.ok.inj h
    exact ⟨⟨rfl, rfl, rfl, rfl⟩, rfl⟩

theorem Faithful.enqueueOperation (h : Faithful q) {operationType ledgerKey nowTs : Str}
    {payload : Dict P.Float} {baseVersion : Option Int}
    (hok : Recoverable cfg q
      (.enqueueOperation operationType ledgerKey payload nowTs baseVersion)) :
    Faithful (OfflineSync.enqueueOperation cfg q operationType ledgerKey payload.items nowTs
      baseVersion).2 := by
  unfold OfflineSync.enqueueOperation
  cases hnew : newOperation cfg q operationType ledgerKey payload.items nowTs baseVersion with
  | error e => exact h
  | ok op =>
    dsimp only
    cases hlogged : appendEvent q (.enqueue nowTs op) with
    | error e => exact h
    | ok logged =>
      obtain ⟨henqueued, htype, hkey, hpayload, -, hts, hretry⟩ := enqueued_newOperation hnew
      obtain ⟨hfresh, hopSeq⟩ := fresh_newOperation hnew
      obtain ⟨hplain, hunbroken, htexts⟩ := hok op hnew (by rw [hlogged]; rfl)
      simp only [List.forall_mem_cons, List.not_mem_nil, false_imp_iff, implies_true,
        and_true] at htexts
      obtain ⟨hunType, hunKey, hunTs⟩ := htexts
      have hhex : ∀ {s : Str}, (∀ c ∈ s, isHexDigit c = true) → Unbroken (.str s : P.Obj) :=
        fun hs => unbroken_str_of_ascii (ascii_of_isHexDigit hs)
      have hrecorded : Recorded (.enqueue nowTs op) := by
        refine ⟨?_, ?_, fun ts op' heq => ?_⟩
        · simp only [Event.texts, List.forall_mem_cons, List.not_mem_nil, false_imp_iff,
            implies_true, and_true]
          rw [htype, hkey, hts, hretry]
          exact ⟨hunTs, hhex henqueued.opId, hunType, hunKey, hunTs, hunTs, hhex henqueued.digest⟩
        · intro v hv
          rw [List.mem_singleton.mp hv, hpayload]
          exact ⟨hplain, payload.wf, hunbroken⟩
        · obtain ⟨-, rfl⟩ := Event.enqueue.inj heq
          exact hfresh
      have hafterwards := h.logged.append hrecorded hlogged
      obtain ⟨t, b, -, -, rfl⟩ := appendEvent_eq_ok.mp hlogged
      have hseq := h.rebuilds.nextSeq
      refine ⟨⟨hafterwards.recorded, hafterwards.log⟩, ⟨?_, ?_, ?_⟩, ?_⟩
      · show (rebuild (q.events ++ [_])).ops = Assoc.set q.ops op.opId op
        rw [rebuild_concat, ← h.rebuilds.ops]
        rfl
      · show (rebuild (q.events ++ [_])).conflicts = q.conflicts
        rw [rebuild_concat, ← h.rebuilds.conflicts]
        rfl
      · show (rebuild (q.events ++ [_])).maxSeq + 1 = q.nextSeq + 1
        rw [rebuild_concat]
        show max (rebuild q.events).maxSeq op.opSeq + 1 = _
        omega
      · intro k hk
        rcases Assoc.mem_keys_set.mp hk with rfl | hk
        · exact henqueued.opId
        · exact h.ids k hk

theorem Faithful.step (h : Faithful q) {call : Call P} (hok : Recoverable cfg q call) :
    Faithful (OfflineSync.step cfg q call) := by
  cases call with
  | enqueueOperation operationType ledgerKey payload nowTs baseVersion => exact h.enqueueOperation hok
  | markDeliveryAttempt opId nowTs => exact h.markDeliveryAttempt hok
  | applyRemoteAck ack nowTs => exact h.applyRemoteAck hok
  | resolveConflictKeepRemote opId nowTs =>
    show Faithful (OfflineSync.resolveConflictKeepRemote cfg q opId nowTs).2
    unfold OfflineSync.resolveConflictKeepRemote
    split
    · exact h
    · next op hop => exact absurd hop (hok op)
  | resolveConflictRetryLocal opId nowTs => exact h.resolveConflictRetryLocal hok

/-! ### Runs -/

theorem always_faithful {calls : List (Call P)}
    (h : Run.Meets (step cfg) (Recoverable cfg) {} calls) :
    Run.Always (step cfg) Faithful {} calls :=
  Run.always_of_step (I := Faithful) (fun _ _ hq hok => hq.step hok) faithful_empty h

/-- A queue can be opened again in every state of a run that meets the condition. -/
theorem always_reopens (cfg : Config) (calls : List (Call P))
    (h : Run.Meets (step cfg) (Recoverable cfg) {} calls) :
    Run.Always (step cfg) Reopens {} calls :=
  (always_faithful h).imp fun _ hq => reopens_of_rebuilds hq.logged hq.rebuilds

/-- An operation is enqueued, and the remote reports a conflict. -/
def conflicted (P : Platform) : List (Call P) :=
  [enqueueCall, .applyRemoteAck (ackOf (firstId P) .conflict) (str "t1")]

theorem meets_conflicted (P : Platform) :
    Run.Meets (step device) (Recoverable device) {} (conflicted P) := by
  have hts : Writable (.str (str "t1") : P.Obj) := writable_of_ascii (by decide)
  have hnone : Writable (.none : P.Obj) := ⟨trivial, unbroken_none, encodable_nil⟩
  refine ⟨?_, ?_, trivial⟩
  · intro op _ _
    refine ⟨trivial, unbroken_dict_nil, fun s hs => ?_⟩
    simp only [List.mem_cons, List.not_mem_nil, or_false] at hs
    rcases hs with rfl | rfl | rfl <;> exact unbroken_str_of_ascii (by decide)
  · exact fun opId op status _ => ⟨fun _ => ⟨hts, hnone, hnone⟩, fun _ _ => ⟨hts, hnone⟩⟩

theorem always_reopens_conflicted :
    Run.Always (step device) Reopens {} (conflicted reference) :=
  always_reopens device (conflicted reference) (meets_conflicted reference)

/-! ### Keeping the remote -/

theorem not_reopens_of_keepRemote (h : Faithful q) {opId nowTs : Str}
    (hop : inConflict q opId = .ok op) (hconflict : op.conflict ≠ none)
    (hts : Writable (.str nowTs : P.Obj)) :
    ¬Reopens (resolveConflictKeepRemote cfg q opId nowTs).2 := by
  obtain ⟨hlookup, -⟩ := inConflict_eq_ok.mp hop
  have he : (Event.ackApplied nowTs opId none (str "keep_remote") : Event P).Written := by
    refine ⟨?_, fun _ hv => absurd hv List.not_mem_nil⟩
    simp only [Event.texts, List.forall_mem_cons, List.not_mem_nil, false_imp_iff, implies_true,
      and_true]
    exact ⟨hts, h.writable_of_lookup hlookup, writable_of_ascii (by decide)⟩
  have hrecorded := he.recorded fun _ _ heq => by cases heq
  intro hreopens
  unfold resolveConflictKeepRemote change at hreopens
  rw [hop] at hreopens
  dsimp only at hreopens
  have hchanged : Logged { q with
      ops := Assoc.set q.ops opId { op with state := .acked, ackTs := some nowTs, conflict := none }
      conflicts := pop q.conflicts opId, ackedIds := q.ackedIds.insert opId } :=
    ⟨h.logged.recorded, h.logged.log⟩
  obtain ⟨logged, hlogged⟩ := exists_appendEvent _ hrecorded.lasting.plain he.encodable
  have hafterwards := hchanged.append hrecorded hlogged
  rw [hlogged] at hreopens
  dsimp only at hreopens
  obtain ⟨t, b, -, -, rfl⟩ := appendEvent_eq_ok.mp hlogged
  obtain ⟨ids, hids⟩ := trimAckedIndex_eq cfg _
  rw [hids] at hreopens
  obtain ⟨q', hopen, hobserve⟩ := hreopens
  obtain ⟨q'', hopen', hops, -, -, hops', -⟩ := openLog_of_logged hafterwards
  obtain rfl := Except.ok.inj (hopen.symm.trans hopen')
  have hboth := congrArg (fun o : Observation P => o.ops.lookup opId) hobserve
  have hmemory : (rebuild q.events).ops.lookup opId = some op := by rw [h.rebuilds.ops, hlookup]
  -- what replay makes of the acknowledgement
  have hreplayed : (rebuild (q.events ++ [.ackApplied nowTs opId none (str "keep_remote")])).ops =
      Assoc.set q.ops opId
        { op with state := .acked, ackTs := some nowTs, remoteVersion := some .none } := by
    rw [rebuild_concat]
    unfold rebuildEvent
    dsimp only
    rw [hmemory, h.rebuilds.ops]
    rfl
  have hleft : q'.observe.ops.lookup opId =
      some ({ op with
        state := .acked, ackTs := some nowTs, remoteVersion := some .none } : Operation P).canonical := by
    show (Assoc.mapValues Operation.canonical q'.ops).lookup opId = _
    rw [hops', hops]
    show (Assoc.mapValues Operation.canonical (rebuild (q.events ++ [_])).ops).lookup opId = _
    rw [hreplayed, Assoc.lookup_mapValues, Assoc.lookup_set, if_pos rfl]
    rfl
  have hright := hleft.symm.trans hboth
  have hsame : ({ op with
        state := .acked, ackTs := some nowTs, remoteVersion := some .none } : Operation P).canonical =
      ({ op with state := .acked, ackTs := some nowTs, conflict := none } : Operation P).canonical := by
    refine Option.some.inj (hright.trans ?_)
    show (Assoc.mapValues Operation.canonical (Assoc.set q.ops opId _)).lookup opId = _
    rw [Assoc.lookup_mapValues, Assoc.lookup_set, if_pos rfl]
    rfl
  have hnone : op.conflict.map Conflict.canonical = none := congrArg Operation.conflict hsame
  exact hconflict (Option.map_eq_none_iff.mp hnone)

/-- An operation is enqueued, the remote reports a conflict, and the remote is kept. -/
def settled (P : Platform) : List (Call P) :=
  conflicted P ++ [.resolveConflictKeepRemote (firstId P) (str "t2")]

theorem not_always_reopens : ¬Run.Always (step device) Reopens {} (settled reference) := by
  intro halways
  obtain ⟨op, hop, hid, hops, -⟩ := exists_step_enqueueCall reference
  have hne : op.opId ≠ [] := by
    intro h
    have := hop.length
    rw [h] at this
    cases this
  have hlookup : (step device ({} : Queue reference) enqueueCall).ops.lookup op.opId = some op := by
    rw [hops, Assoc.lookup_cons, if_pos rfl]
  have hcheck := checkAck_ackOf .conflict hlookup hop.opId hne
  have hset := applyRemoteAck_conflict device hcheck (str "t1")
  have hfaithful := (always_faithful (meets_conflicted reference)).2.2
  have hreopens := halways.2.2.2
  rw [hid] at hfaithful hreopens
  have hlookup₂ : (step device (step device ({} : Queue reference) enqueueCall)
      (.applyRemoteAck (ackOf op.opId .conflict) (str "t1"))).ops.lookup op.opId =
      some (op.conflicting (conflictOf (ackOf op.opId .conflict).items (str "t1"))) := by
    show (applyRemoteAck _ _ _ _).2.ops.lookup _ = _
    rw [hset, Assoc.lookup_set, if_pos rfl]
  have hconflict := inConflict_eq_ok.mpr ⟨hlookup₂, rfl⟩
  exact not_reopens_of_keepRemote hfaithful hconflict (Option.some_ne_none _)
    (writable_of_ascii (by decide)) hreopens

end Adaad.OfflineSync
