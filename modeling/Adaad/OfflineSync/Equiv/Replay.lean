import Adaad.OfflineSync.Equiv.Log
import Adaad.Py.Json.Equiv.Flat
import Adaad.Py.Json.Equiv.Lines

/-!
# What a log says

A `dict` comes back from the log with its keys in order.  But for this (`canonical`) an event comes
back as it was logged (`ofDict_of_sortKeys`), and the log of a queue gives the events of the queue
(`loadEvents_of_logged`); replay does not mind the order of keys (`rebuild_canonical`).
-/

namespace Adaad.OfflineSync

open Py

variable {P : Platform}

/-! ### Data with its keys in order -/

/-- The value with the keys of its mappings in order. -/
def canonical (v : P.Obj) : P.Obj :=
  (sortKeys P v).getD v

def Conflict.canonical (c : Conflict P) : Conflict P :=
  { c with
    reason := OfflineSync.canonical c.reason
    remoteSnapshot := OfflineSync.canonical c.remoteSnapshot }

def Operation.canonical (op : Operation P) : Operation P :=
  { op with
    payload := OfflineSync.canonical op.payload
    remoteVersion := op.remoteVersion.map OfflineSync.canonical
    conflict := op.conflict.map Conflict.canonical }

def Event.canonical : Event P → Event P
  | .enqueue ts operation => .enqueue ts operation.canonical
  | .attempt ts opId attemptCount nextRetryTs => .attempt ts opId attemptCount nextRetryTs
  | .ackApplied ts opId remoteVersion remoteStatus =>
    .ackApplied ts opId (remoteVersion.map OfflineSync.canonical) remoteStatus
  | .ackConflict ts opId conflict => .ackConflict ts opId conflict.canonical
  | .resolveConflict ts opId resolution => .resolveConflict ts opId resolution

def Rebuilt.canonical (s : Rebuilt P) : Rebuilt P :=
  { s with
    ops := Assoc.mapValues Operation.canonical s.ops
    conflicts := Assoc.mapValues Conflict.canonical s.conflicts }

theorem sortKeys_eq_canonical {v : P.Obj} (h : v.Plain) : sortKeys P v = some (canonical v) := by
  obtain ⟨w, hw⟩ := exists_sortKeys P h
  unfold canonical
  rw [hw, Option.getD_some]

theorem canonical_canonical {v : P.Obj} (h : v.Plain) : canonical (canonical v) = canonical v := by
  have hsort := sortKeys_sortKeys P (sortKeys_eq_canonical h) h
  rw [canonical, hsort, Option.getD_some]

/-! ### Replay -/

theorem pop_mapValues {V W : Type} (f : V → W) (d : List (Str × V)) (key : Str) :
    pop (Assoc.mapValues f d) key = Assoc.mapValues f (pop d key) := by
  unfold pop Assoc.mapValues
  rw [List.filter_map]
  rfl

theorem rebuildEvent_canonical (s : Rebuilt P) (e : Event P) :
    rebuildEvent s.canonical e.canonical = (rebuildEvent s e).canonical := by
  have hlookup : ∀ opId, s.canonical.ops.lookup opId = (s.ops.lookup opId).map Operation.canonical :=
    Assoc.lookup_mapValues Operation.canonical s.ops
  have hset : ∀ opId (op : Operation P), Assoc.set s.canonical.ops opId op.canonical =
      Assoc.mapValues Operation.canonical (Assoc.set s.ops opId op) :=
    Assoc.set_mapValues Operation.canonical s.ops
  cases e with
  | enqueue ts op =>
    exact congrArg (fun ops => Rebuilt.mk ops s.ackedIds s.canonical.conflicts
      (max s.maxSeq op.opSeq)) (hset op.opId op)
  | attempt ts opId attemptCount nextRetryTs =>
    unfold rebuildEvent Event.canonical
    dsimp only
    rw [hlookup]
    cases s.ops.lookup opId with
    | none => rfl
    | some op =>
      exact congrArg (fun ops => Rebuilt.mk ops s.ackedIds s.canonical.conflicts s.maxSeq)
        (hset opId { op with
          attemptCount := op.attemptCount + 1, lastAttemptTs := some ts, nextRetryTs })
  | ackApplied ts opId remoteVersion remoteStatus =>
    unfold rebuildEvent Event.canonical
    dsimp only
    rw [hlookup]
    cases s.ops.lookup opId with
    | none => rfl
    | some op =>
      have hversion : (remoteVersion.map canonical).getD .none =
          canonical (remoteVersion.getD .none) := by
        cases remoteVersion <;> rfl
      rw [hversion]
      exact congrArg
        (fun ops => Rebuilt.mk ops (s.ackedIds.insert opId) s.canonical.conflicts s.maxSeq)
        (hset opId { op with
          state := .acked, ackTs := some ts, remoteVersion := some (remoteVersion.getD .none) })
  | ackConflict ts opId conflict =>
    unfold rebuildEvent Event.canonical
    dsimp only
    rw [hlookup]
    cases s.ops.lookup opId with
    | none => rfl
    | some op =>
      exact congrArg₂ (fun ops conflicts => Rebuilt.mk ops s.ackedIds conflicts s.maxSeq)
        (hset opId { op with state := .conflict, conflict := some conflict })
        (Assoc.set_mapValues Conflict.canonical s.conflicts opId conflict)
  | resolveConflict ts opId resolution =>
    unfold rebuildEvent Event.canonical
    dsimp only
    rw [hlookup]
    cases s.ops.lookup opId with
    | none => rfl
    | some op =>
      exact congrArg₂ (fun ops conflicts => Rebuilt.mk ops s.ackedIds conflicts s.maxSeq)
        (hset opId { op with state := .pending, nextRetryTs := ts, conflict := none })
        (pop_mapValues Conflict.canonical s.conflicts opId)

theorem rebuild_canonical (es : List (Event P)) :
    rebuild (es.map Event.canonical) = (rebuild es).canonical := by
  have hfold : (es.map Event.canonical).foldl rebuildEvent (Rebuilt.canonical {}) =
      (rebuild es).canonical := by
    rw [List.foldl_map]
    exact List.foldl_hom Rebuilt.canonical fun s e => rebuildEvent_canonical s e
  exact hfold

theorem rebuild_concat (es : List (Event P)) (e : Event P) :
    rebuild (es ++ [e]) = rebuildEvent (rebuild es) e := by
  unfold rebuild
  rw [List.foldl_append]
  rfl

/-! ### The parts of an event -/

def Event.texts : Event P → List Str
  | .enqueue ts op =>
    [ts, op.opId, op.operationType, op.ledgerKey, op.enqueuedTs, op.nextRetryTs, op.opDigest]
  | .attempt ts opId _ nextRetryTs => [ts, opId, nextRetryTs]
  | .ackApplied ts opId _ remoteStatus => [ts, opId, remoteStatus]
  | .ackConflict ts opId conflict => [ts, opId, conflict.detectedTs]
  | .resolveConflict ts opId resolution => [ts, opId, resolution]

def Event.data : Event P → List P.Obj
  | .enqueue _ op => [op.payload]
  | .ackApplied _ _ remoteVersion _ => remoteVersion.toList
  | .ackConflict _ _ conflict => [conflict.reason, conflict.remoteSnapshot]
  | _ => []

theorem Event.toDict_of_parts {Q : P.Obj → Prop} {e : Event P} (hnone : Q .none)
    (hbool : ∀ b, Q (.bool b)) (hint : ∀ i, Q (.int i))
    (hascii : ∀ s : Str, (∀ c ∈ s, c < 128) → Q (.str s))
    (hdict : ∀ (names : List Str) (ms : Members P.Float), ms.map Prod.fst = names.map Key.str →
      names.Nodup → (∀ s ∈ names, ∀ c ∈ s, c < 128) → (∀ m ∈ ms, Q m.2) → Q (.dict ms))
    (htexts : ∀ s ∈ e.texts, Q (.str s)) (hdata : ∀ v ∈ e.data, Q v) : Q (.dict e.toDict) := by
  have hversion : ∀ v, Q (versionValue v) := by
    intro v
    cases v with
    | none => exact hnone
    | some i => exact hint i
  have hstate : ∀ state : OpState, Q (.str state.text) := by
    intro state
    cases state <;> exact hascii _ (by decide)
  have hkind : ∀ kind : Str, (∀ c ∈ kind, c < 128) → Q (.str kind) := hascii
  cases e with
  | enqueue ts op =>
    simp only [Event.texts, Event.data, List.forall_mem_cons, List.not_mem_nil, false_imp_iff,
      implies_true, and_true] at htexts hdata
    obtain ⟨hts, hid, htype, hkey, henqueued, hretry, hdigest⟩ := htexts
    refine hdict [str "event", str "ts", str "operation"] _ rfl (by decide) (by decide) ?_
    simp only [Event.toDict, List.forall_mem_cons, List.not_mem_nil, false_imp_iff,
      implies_true, and_true]
    refine ⟨hascii _ (by decide), hts, ?_⟩
    refine hdict [str "schema_version", str "op_id", str "op_seq", str "operation_type",
      str "ledger_key", str "payload", str "base_version", str "enqueued_ts", str "next_retry_ts",
      str "attempt_count", str "state", str "op_digest"] op.toDict rfl (by decide) (by decide) ?_
    simp only [Operation.toDict, List.forall_mem_cons, List.not_mem_nil, false_imp_iff,
      implies_true, and_true]
    exact ⟨hascii _ (by decide), hid, hint _, htype, hkey, hdata, hversion _, henqueued, hretry,
      hint _, hstate _, hdigest⟩
  | attempt ts opId attemptCount nextRetryTs =>
    simp only [Event.texts, List.forall_mem_cons, List.not_mem_nil, false_imp_iff,
      implies_true, and_true] at htexts
    obtain ⟨hts, hid, hretry⟩ := htexts
    refine hdict [str "event", str "ts", str "op_id", str "attempt_count", str "next_retry_ts"] _
      rfl (by decide) (by decide) ?_
    simp only [Event.toDict, List.forall_mem_cons, List.not_mem_nil, false_imp_iff,
      implies_true, and_true]
    exact ⟨hascii _ (by decide), hts, hid, hint _, hretry⟩
  | ackApplied ts opId remoteVersion remoteStatus =>
    simp only [Event.texts, List.forall_mem_cons, List.not_mem_nil, false_imp_iff,
      implies_true, and_true] at htexts
    obtain ⟨hts, hid, hstatus⟩ := htexts
    cases remoteVersion with
    | none =>
      refine hdict [str "event", str "ts", str "op_id", str "remote_status"] _ rfl (by decide)
        (by decide) ?_
      simp only [Event.toDict, List.forall_mem_cons, List.not_mem_nil, false_imp_iff,
      implies_true, and_true]
      exact ⟨hascii _ (by decide), hts, hid, hstatus⟩
    | some v =>
      have hv : Q v := hdata v (List.mem_singleton_self v)
      refine hdict [str "event", str "ts", str "op_id", str "remote_version", str "remote_status"] _
        rfl (by decide) (by decide) ?_
      simp only [Event.toDict, List.forall_mem_cons, List.not_mem_nil, false_imp_iff,
      implies_true, and_true]
      exact ⟨hascii _ (by decide), hts, hid, hv, hstatus⟩
  | ackConflict ts opId conflict =>
    simp only [Event.texts, Event.data, List.forall_mem_cons, List.not_mem_nil, false_imp_iff,
      implies_true, and_true] at htexts hdata
    obtain ⟨hts, hid, hdetected⟩ := htexts
    refine hdict [str "event", str "ts", str "op_id", str "conflict"] _ rfl (by decide)
      (by decide) ?_
    simp only [Event.toDict, List.forall_mem_cons, List.not_mem_nil, false_imp_iff,
      implies_true, and_true]
    refine ⟨hascii _ (by decide), hts, hid, ?_⟩
    refine hdict [str "state", str "reason", str "remote_snapshot", str "detected_ts",
      str "resolution_required"] conflict.toDict rfl (by decide) (by decide) ?_
    simp only [Conflict.toDict, List.forall_mem_cons, List.not_mem_nil, false_imp_iff,
      implies_true, and_true]
    exact ⟨hascii _ (by decide), hdata.1, hdata.2, hdetected, hbool _⟩
  | resolveConflict ts opId resolution =>
    simp only [Event.texts, List.forall_mem_cons, List.not_mem_nil, false_imp_iff,
      implies_true, and_true] at htexts
    obtain ⟨hts, hid, hresolution⟩ := htexts
    refine hdict [str "event", str "ts", str "op_id", str "resolution"] _ rfl (by decide)
      (by decide) ?_
    simp only [Event.toDict, List.forall_mem_cons, List.not_mem_nil, false_imp_iff,
      implies_true, and_true]
    exact ⟨hascii _ (by decide), hts, hid, hresolution⟩

/-! ### Events that last -/

/-- The value comes back from a line as it was written, but for the order of keys. -/
structure Lasting (v : P.Obj) : Prop where
  plain : v.Plain
  wf : v.WF
  unbroken : Unbroken v

theorem lasting_str {s : Str} : Lasting (.str s : P.Obj) ↔ Unbroken (.str s : P.Obj) :=
  ⟨fun h => h.unbroken, fun h => ⟨trivial, trivial, h⟩⟩

theorem lasting_dict (names : List Str) (ms : Members P.Float)
    (hkeys : ms.map Prod.fst = names.map Key.str) (hnodup : names.Nodup)
    (hascii : ∀ s ∈ names, ∀ c ∈ s, c < 128) (h : ∀ m ∈ ms, Lasting m.2) :
    Lasting (.dict ms : P.Obj) where
  plain := by
    rw [Value.Plain, plainMembers_iff]
    intro m hm
    have hmem : m.1 ∈ names.map Key.str := hkeys ▸ List.mem_map_of_mem hm
    obtain ⟨s, -, hkey⟩ := List.mem_map.mp hmem
    exact ⟨by rw [← hkey]; rfl, (h m hm).plain⟩
  wf := by
    rw [Value.WF, wfMembers_iff, hkeys]
    exact ⟨hnodup.map fun _ _ heq => Key.str.inj heq, fun m hm => (h m hm).wf⟩
  unbroken := (unbroken_dict_of_names names hkeys hascii).mpr fun m hm => (h m hm).unbroken

/-- The operation has just been enqueued. -/
structure Operation.Fresh (op : Operation P) : Prop where
  lastAttemptTs : op.lastAttemptTs = none
  ackTs : op.ackTs = none
  remoteVersion : op.remoteVersion = none
  conflict : op.conflict = none

/-- The event comes back from the log. -/
structure Recorded (e : Event P) : Prop where
  texts : ∀ s ∈ e.texts, Unbroken (.str s : P.Obj)
  data : ∀ v ∈ e.data, Lasting v
  fresh : ∀ ts op, e = .enqueue ts op → op.Fresh

theorem Recorded.lasting {e : Event P} (h : Recorded e) : Lasting (.dict e.toDict : P.Obj) :=
  Event.toDict_of_parts ⟨trivial, trivial, unbroken_none⟩
    (fun b => ⟨trivial, trivial, unbroken_bool b⟩) (fun i => ⟨trivial, trivial, unbroken_int i⟩)
    (fun _ hs => ⟨trivial, trivial, unbroken_str_of_ascii hs⟩) lasting_dict
    (fun s hs => lasting_str.mpr (h.texts s hs)) h.data

theorem Recorded.canonical_canonical {e : Event P} (h : Recorded e) :
    e.canonical.canonical = e.canonical := by
  have hdata : ∀ v ∈ e.data, canonical (canonical v) = canonical v := fun v hv =>
    OfflineSync.canonical_canonical (h.data v hv).plain
  cases e with
  | attempt | resolveConflict => rfl
  | enqueue ts op =>
    obtain ⟨-, -, hversion, hconflict⟩ := h.fresh ts op rfl
    have hpayload := hdata op.payload (List.mem_singleton_self _)
    unfold Event.canonical Operation.canonical
    dsimp only
    rw [hpayload, hversion, hconflict]
    rfl
  | ackApplied ts opId remoteVersion remoteStatus =>
    cases remoteVersion with
    | none => rfl
    | some v =>
      exact congrArg (fun w => Event.ackApplied ts opId (some w) remoteStatus)
        (hdata v (List.mem_singleton_self v))
  | ackConflict ts opId conflict =>
    have hreason := hdata conflict.reason (List.mem_cons_self ..)
    have hsnapshot := hdata conflict.remoteSnapshot (List.mem_cons_of_mem _ (List.mem_singleton_self _))
    unfold Event.canonical Conflict.canonical
    dsimp only
    rw [hreason, hsnapshot]

/-! ### Reading an event -/

section sorted

variable {d ms : Members P.Float} {k : Str}

theorem textOf_of_sortKeys (h : sortKeys P (.dict d) = some (.dict ms))
    (hnodup : (d.map Prod.fst).Nodup) {s : Str} (hget : get d k = some (.str s)) :
    textOf ms k = some s := by
  unfold textOf
  rw [get_sortKeys h hnodup, hget]
  rfl

theorem natOf_of_sortKeys (h : sortKeys P (.dict d) = some (.dict ms))
    (hnodup : (d.map Prod.fst).Nodup) {n : Nat} (hget : get d k = some (.int n)) :
    natOf ms k = some n := by
  unfold natOf
  rw [get_sortKeys h hnodup, hget]
  rfl

theorem versionOf_of_sortKeys (h : sortKeys P (.dict d) = some (.dict ms))
    (hnodup : (d.map Prod.fst).Nodup) {v : Option Int} (hget : get d k = some (versionValue v)) :
    versionOf ms k = some v := by
  unfold versionOf
  rw [get_sortKeys h hnodup, hget]
  cases v <;> rfl

theorem get_of_sortKeys (h : sortKeys P (.dict d) = some (.dict ms))
    (hnodup : (d.map Prod.fst).Nodup) {v : P.Obj} (hget : get d k = some v) (hv : v.Plain) :
    get ms k = some (canonical v) := by
  rw [get_sortKeys h hnodup, hget, Option.bind_some, sortKeys_eq_canonical hv]

theorem dictOf_of_sortKeys (h : sortKeys P (.dict d) = some (.dict ms))
    (hnodup : (d.map Prod.fst).Nodup) {d' : Members P.Float} (hget : get d k = some (.dict d'))
    (hplain : (Value.dict d').Plain) :
    ∃ ms', OfflineSync.dictOf ms k = some ms' ∧ sortKeys P (.dict d') = some (.dict ms') := by
  obtain ⟨w, hw⟩ := exists_sortKeys P hplain
  obtain ⟨ns, -, -, rfl⟩ := (sortKeys_dict_eq_some P).mp hw
  refine ⟨sortMembers P ns, ?_, hw⟩
  unfold OfflineSync.dictOf
  rw [get_sortKeys h hnodup, hget, Option.bind_some, hw]
  rfl

end sorted

theorem Conflict.ofDict_of_sortKeys {c : Conflict P} {ms : Members P.Float}
    (h : sortKeys P (.dict c.toDict) = some (.dict ms)) (hc : Lasting (.dict c.toDict : P.Obj)) :
    Conflict.ofDict ms = some c.canonical := by
  have hnodup : (c.toDict.map Prod.fst).Nodup := hc.wf.1
  have hplain := plainMembers_iff.mp hc.plain
  have hreason : c.reason.Plain := (hplain (.str (str "reason"), c.reason) (by simp [toDict])).2
  have hsnapshot : c.remoteSnapshot.Plain :=
    (hplain (.str (str "remote_snapshot"), c.remoteSnapshot) (by simp [toDict])).2
  unfold Conflict.ofDict
  rw [get_of_sortKeys h hnodup rfl hreason, get_of_sortKeys h hnodup rfl hsnapshot,
    textOf_of_sortKeys h hnodup rfl]
  rfl

theorem Operation.ofDict_of_sortKeys {op : Operation P} {ms : Members P.Float}
    (h : sortKeys P (.dict op.toDict) = some (.dict ms)) (hop : Lasting (.dict op.toDict : P.Obj))
    (hfresh : op.Fresh) : Operation.ofDict ms = some op.canonical := by
  have hnodup : (op.toDict.map Prod.fst).Nodup := hop.wf.1
  have hplain := plainMembers_iff.mp hop.plain
  have hpayload : op.payload.Plain := (hplain (.str (str "payload"), op.payload) (by simp [toDict])).2
  have hstate : OpState.ofText op.state.text = some op.state := by
    cases op.state <;> rfl
  obtain ⟨hattempt, hack, hversion, hconflict⟩ := hfresh
  unfold Operation.ofDict
  rw [textOf_of_sortKeys h hnodup rfl, natOf_of_sortKeys h hnodup rfl,
    textOf_of_sortKeys (k := str "operation_type") h hnodup rfl,
    textOf_of_sortKeys (k := str "ledger_key") h hnodup rfl,
    get_of_sortKeys h hnodup rfl hpayload, versionOf_of_sortKeys h hnodup rfl,
    textOf_of_sortKeys (k := str "enqueued_ts") h hnodup rfl,
    textOf_of_sortKeys (k := str "next_retry_ts") h hnodup rfl,
    natOf_of_sortKeys (k := str "attempt_count") h hnodup rfl,
    textOf_of_sortKeys (k := str "state") h hnodup rfl,
    textOf_of_sortKeys (k := str "op_digest") h hnodup rfl]
  simp only [Option.bind_eq_bind, Option.bind_some, hstate, Option.pure_def]
  unfold Operation.canonical
  rw [hattempt, hack, hversion, hconflict]
  rfl

theorem ofDict_of_sortKeys {e : Event P} (he : Recorded e) {ms : Members P.Float}
    (h : sortKeys P (.dict e.toDict) = some (.dict ms)) : Event.ofDict ms = some e.canonical := by
  have hlasting := he.lasting
  have hnodup : (e.toDict.map Prod.fst).Nodup := hlasting.wf.1
  have hall : ∀ m ∈ e.toDict, Lasting m.2 := fun m hm =>
    ⟨(plainMembers_iff.mp hlasting.plain m hm).2, wfMembers_iff.mp hlasting.wf.2 m hm,
      (unbroken_dict.mp hlasting.unbroken m hm).2⟩
  cases e with
  | enqueue ts op =>
    have hop : Lasting (.dict op.toDict : P.Obj) :=
      hall (.str (str "operation"), .dict op.toDict) (by simp [Event.toDict])
    obtain ⟨ms', hms', hsort⟩ := dictOf_of_sortKeys (k := str "operation") h hnodup rfl hop.plain
    unfold Event.ofDict
    rw [textOf_of_sortKeys (k := str "event") h hnodup rfl,
      textOf_of_sortKeys (k := str "ts") h hnodup rfl, hms']
    simp only [Option.bind_eq_bind, Option.bind_some, if_true,
      Operation.ofDict_of_sortKeys hsort hop (he.fresh ts op rfl)]
    rfl
  | attempt ts opId attemptCount nextRetryTs =>
    unfold Event.ofDict
    rw [textOf_of_sortKeys (k := str "event") h hnodup rfl,
      textOf_of_sortKeys (k := str "ts") h hnodup rfl,
      textOf_of_sortKeys (k := str "op_id") h hnodup rfl,
      natOf_of_sortKeys h hnodup rfl, textOf_of_sortKeys (k := str "next_retry_ts") h hnodup rfl]
    rfl
  | ackApplied ts opId remoteVersion remoteStatus =>
    have hversion : get ms (str "remote_version") = remoteVersion.map canonical := by
      cases remoteVersion with
      | none =>
        rw [get_sortKeys h hnodup]
        rfl
      | some v =>
        have hv : Lasting v := hall (.str (str "remote_version"), v) (by simp [Event.toDict])
        exact get_of_sortKeys h hnodup rfl hv.plain
    have hitems : get (Event.ackApplied ts opId remoteVersion remoteStatus).toDict (str "event") =
          some (.str (str "ack_applied")) ∧
        get (Event.ackApplied ts opId remoteVersion remoteStatus).toDict (str "ts") =
          some (.str ts) ∧
        get (Event.ackApplied ts opId remoteVersion remoteStatus).toDict (str "op_id") =
          some (.str opId) ∧
        get (Event.ackApplied ts opId remoteVersion remoteStatus).toDict (str "remote_status") =
          some (.str remoteStatus) := by
      cases remoteVersion <;> exact ⟨rfl, rfl, rfl, rfl⟩
    obtain ⟨hkind, hts, hid, hstatus⟩ := hitems
    unfold Event.ofDict
    rw [textOf_of_sortKeys h hnodup hkind, textOf_of_sortKeys h hnodup hts,
      textOf_of_sortKeys h hnodup hid, textOf_of_sortKeys h hnodup hstatus, hversion]
    rfl
  | ackConflict ts opId conflict =>
    have hconflict : Lasting (.dict conflict.toDict : P.Obj) :=
      hall (.str (str "conflict"), .dict conflict.toDict) (by simp [Event.toDict])
    obtain ⟨ms', hms', hsort⟩ := dictOf_of_sortKeys (k := str "conflict") h hnodup rfl hconflict.plain
    unfold Event.ofDict
    rw [textOf_of_sortKeys (k := str "event") h hnodup rfl,
      textOf_of_sortKeys (k := str "ts") h hnodup rfl,
      textOf_of_sortKeys (k := str "op_id") h hnodup rfl, hms']
    have hread := Conflict.ofDict_of_sortKeys hsort hconflict
    show (Conflict.ofDict ms').bind _ = _
    rw [hread]
    rfl
  | resolveConflict ts opId resolution =>
    unfold Event.ofDict
    rw [textOf_of_sortKeys (k := str "event") h hnodup rfl,
      textOf_of_sortKeys (k := str "ts") h hnodup rfl,
      textOf_of_sortKeys (k := str "op_id") h hnodup rfl,
      textOf_of_sortKeys (k := str "resolution") h hnodup rfl]
    rfl

/-! ### The log of a queue -/

/-- The log has the events of the queue. -/
structure Logged (q : Queue P) : Prop where
  recorded : ∀ e ∈ q.events, Recorded e
  log : ∃ rows, List.Forall₂ (fun e row => sortKeys P (.dict (Event.toDict e)) = some (.dict row))
      q.events rows ∧ encode (rowsText P .spaced rows) = some q.log

theorem logged_empty : Logged ({} : Queue P) where
  recorded _ h := absurd h List.not_mem_nil
  log := ⟨[], .nil, rfl⟩

theorem Logged.append {q q' : Queue P} {e : Event P} (h : Logged q) (he : Recorded e)
    (happend : appendEvent q e = .ok q') : Logged q' := by
  obtain ⟨t, b, ht, hb, rfl⟩ := appendEvent_eq_ok.mp happend
  obtain ⟨rows, hrows, hlog⟩ := h.log
  obtain ⟨w, hw, rfl⟩ := Option.map_eq_some_iff.mp ht
  obtain ⟨ns, -, -, rfl⟩ := (sortKeys_dict_eq_some P).mp hw
  refine ⟨List.forall_mem_append.mpr ⟨h.recorded, List.forall_mem_singleton.mpr he⟩,
    rows ++ [sortMembers P ns], ?_, ?_⟩
  · exact List.rel_append hrows (.cons hw .nil)
  · rw [rowsText_append]
    refine encode_append_eq_some.mpr ⟨q.log, b, hlog, ?_, rfl⟩
    rw [rowsText, List.flatMap_singleton]
    exact hb

theorem mapM_ofDict {es : List (Event P)} {rows : List (Members P.Float)}
    (hrows : List.Forall₂
      (fun e row => sortKeys P (.dict (Event.toDict e)) = some (.dict row)) es rows)
    (hes : ∀ e ∈ es, Recorded e) :
    (rows.map Value.dict).mapM (fun row : P.Obj => row.members?.bind Event.ofDict) =
      some (es.map Event.canonical) := by
  induction hrows with
  | nil => rfl
  | @cons e row es rows hsort _ ih =>
    obtain ⟨he, hrest⟩ := List.forall_mem_cons.mp hes
    rw [List.map_cons, List.mapM_cons, ih hrest]
    show (Event.ofDict row).bind _ = _
    rw [ofDict_of_sortKeys he hsort]
    rfl

theorem loadEvents_of_logged {q : Queue P} (h : Logged q) :
    loadEvents q.log = .ok (q.events.map Event.canonical) := by
  obtain ⟨rows, hrows, hlog⟩ := h.log
  have hread : ∀ row ∈ rows, Unbroken (.dict row : P.Obj) ∧ image P (.dict row) = .dict row := by
    intro row hrow
    obtain ⟨e, he, hsort⟩ := forall₂_mem hrows hrow
    have hlasting := (h.recorded e he).lasting
    refine ⟨fun c hc => hlasting.unbroken c ((mem_chars_sortKeys P hsort).mp hc), ?_⟩
    exact image_eq_self P ((plain_sortKeys_iff P hsort).mpr hlasting.plain)
      (wf_sortKeys P hsort hlasting.wf)
  have hvalues : readRows P id q.log = .ok (rows.map .dict) := by
    refine (readRows_rowsText_eq_ok cleaning_id hlog).mpr ⟨fun row hrow => (hread row hrow).1, ?_⟩
    exact (List.map_congr_left fun row hrow => (hread row hrow).2).symm
  unfold loadEvents
  rw [hvalues]
  dsimp only
  rw [mapM_ofDict hrows h.recorded]

end Adaad.OfflineSync
