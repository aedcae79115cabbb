import Adaad.Governance.HumanApprovalGate
import Adaad.Py.Json.Equiv.AsciiRows
import Adaad.Py.Reference

/-!
# The methods of the gate

What the parts of the gate's methods do, one by one: the index can always be written, a log that can
be read takes another row, and the state that a call goes by is the one in memory, in the index
file, or rebuilt (`run_loadIndexOrRebuild`).
-/

namespace Adaad.HumanApproval

open Py Method

variable {P : Platform}

/-! ### Computations that raise -/

theorem run_bind_of_computed {α β : Type} {x : Except Exc α} {a : α} (h : x = .ok a)
    (f : α → GateMethod P β) (g : Gate P) :
    run (Method.ofExcept (x.mapError GateError.raised) >>= f) g = run (f a) g := by
  rw [h]
  exact run_bind_of_ok (run_ofExcept _ _)

theorem run_bind_of_raised {α β : Type} {x : Except Exc α} {e : Exc} (h : x = .error e)
    (f : α → GateMethod P β) (g : Gate P) :
    run (Method.ofExcept (x.mapError GateError.raised) >>= f) g = (.error (.raised e), g) := by
  rw [h]
  exact run_bind_of_error (run_ofExcept _ _)

/-! ### The index -/

theorem JsonDict.exists_sortKeys (d : JsonDict P) : ∃ w, sortKeys P (.dict d.items) = some w :=
  Option.isSome_iff_exists.mp d.sorts

theorem exists_sortKeys_serializable (s : Index P) :
    ∃ w, sortKeys P (.dict s.serializable) = some w := by
  have hrequests : ∃ w, sortKeys P
      (.dict (s.requests.map fun m => (.str m.1, .dict m.2.items))) = some w :=
    exists_sortKeys_dict P (List.forall_mem_map.mpr fun _ _ => rfl)
      (List.forall_mem_map.mpr fun m _ => m.2.exists_sortKeys)
  have hstatus : ∃ w, sortKeys P
      (.dict (s.mutationStatus.map fun m => (.str m.1, .str m.2))) = some w :=
    exists_sortKeys_dict P (List.forall_mem_map.mpr fun _ _ => rfl)
      (List.forall_mem_map.mpr fun _ _ => ⟨_, rfl⟩)
  have htexts : ∀ ts : List Str, ∃ w, sortKeys P (.list (ts.map .str) : P.Obj) = some w := by
    intro ts
    refine exists_sortKeys P ?_
    rw [Value.Plain, plainList_iff]
    exact List.forall_mem_map.mpr fun _ _ => trivial
  refine exists_sortKeys_dict P ?_ ?_
  · simp only [Index.serializable, List.forall_mem_cons, List.not_mem_nil, false_imp_iff,
      implies_true, and_true]
    exact ⟨rfl, rfl, rfl, rfl, rfl, rfl, rfl⟩
  · simp only [Index.serializable, List.forall_mem_cons, List.not_mem_nil, false_imp_iff,
      implies_true, and_true]
    exact ⟨⟨_, rfl⟩, hrequests, hstatus, htexts _, htexts _, ⟨_, rfl⟩, ⟨_, rfl⟩⟩

theorem exists_indexFile (s : Index P) : ∃ b, appendSorted P [] (.dict s.serializable) = .ok b := by
  obtain ⟨w, hw⟩ := exists_sortKeys_serializable s
  exact exists_appendSorted hw []

/-- The gate with an index in its file and in memory. -/
def Gate.withIndex (g : Gate P) (b : Bytes) (s : Index P) : Gate P :=
  { g with
    index := some b
    cache := some s }

theorem run_writeIndex {s : Index P} {b : Bytes}
    (hb : appendSorted P [] (.dict s.serializable) = .ok b) (g : Gate P) :
    run (writeIndex s) g = (.ok (), g.withIndex b s) := by
  unfold writeIndex
  rw [hb]
  rfl

/-! ### The state that a call goes by -/

/-- The index that is kept, in memory or in a file that is consistent with the logs. -/
def Gate.kept (g : Gate P) : Option (Index P) :=
  match g.cache with
  | some s => some s
  | none => savedIndex g

/-- The state that `_load_index_or_rebuild` returns. -/
def Gate.goesBy (g : Gate P) : Except Exc (Index P) :=
  match g.kept with
  | some s => .ok s
  | none => replayState g

theorem run_loadIndexOrRebuild (g : Gate P) :
    match g.goesBy with
    | .ok s => ∃ i, run loadIndexOrRebuild g =
        (.ok s, { g with index := i, cache := some s })
    | .error e => run loadIndexOrRebuild g = (.error (.raised e), g) := by
  obtain ⟨queue, audit, index, cache⟩ := g
  unfold Gate.goesBy Gate.kept loadIndexOrRebuild
  cases cache with
  | some s => exact ⟨index, rfl⟩
  | none =>
    dsimp only
    cases hsaved : savedIndex (⟨queue, audit, index, none⟩ : Gate P) with
    | some s =>
      refine ⟨index, ?_⟩
      rw [run_bind_of_ok (run_state _)]
      dsimp only
      rw [hsaved]
      rfl
    | none =>
      dsimp only
      cases hreplay : replayState (⟨queue, audit, index, none⟩ : Gate P) with
      | ok s =>
        obtain ⟨b, hb⟩ := exists_indexFile s
        refine ⟨some b, ?_⟩
        rw [run_bind_of_ok (run_state _)]
        dsimp only
        rw [hsaved]
        dsimp only
        rw [run_bind_of_computed hreplay, run_bind_of_ok (run_writeIndex hb _)]
        rfl
      | error e =>
        rw [run_bind_of_ok (run_state _)]
        dsimp only
        rw [hsaved]
        dsimp only
        exact run_bind_of_raised hreplay _ _

theorem run_loadIndexOrRebuild_of_cache {g : Gate P} {s : Index P} (h : g.cache = some s) :
    run loadIndexOrRebuild g = (.ok s, g) := by
  unfold loadIndexOrRebuild
  rw [run_bind_of_ok (run_state _), h]
  rfl

/-! ### Rows of the audit log -/

theorem digestJsonl_of_rows {file : Bytes} {rows : List P.Obj} (h : looseRows P file = .ok rows) :
    digestJsonl P file =
      .ok (P.sha256 ((encode (rows.filterMap (dumpsSortedAscii P .compact)).flatten).getD [])) := by
  unfold digestJsonl
  rw [h]
  rfl

theorem exists_applyAuditToState (s : Index P) (eventType : P.Obj) (p : Members P.Float) :
    ∃ s', applyAuditToState s eventType (.dict p) = .ok s' := by
  unfold applyAuditToState
  cases eventType with
  | str e =>
    dsimp only
    split_ifs
    · exact ⟨_, rfl⟩
    · exact ⟨_, rfl⟩
    · exact ⟨_, rfl⟩
  | none | bool | int | float | list | tuple | dict => exact ⟨_, rfl⟩

theorem exists_sortKeys_auditEntry {payload : Members P.Float} {w : P.Obj}
    (h : sortKeys P (.dict payload) = some w) (eventType now : Str) :
    ∃ w, sortKeys P (.dict (auditEntry eventType now payload)) = some w := by
  refine exists_sortKeys_dict P ?_ ?_
  · simp only [auditEntry, List.forall_mem_cons, List.not_mem_nil, false_imp_iff, implies_true,
      and_true]
    exact ⟨rfl, rfl, rfl⟩
  · simp only [auditEntry, List.forall_mem_cons, List.not_mem_nil, false_imp_iff, implies_true,
      and_true]
    exact ⟨⟨_, rfl⟩, ⟨_, rfl⟩, ⟨w, h⟩⟩

theorem exists_run_writeAuditWithState {g : Gate P} {rows : List P.Obj}
    (haudit : looseRows P g.audit = .ok rows) {payload : Members P.Float} {w : P.Obj}
    (hw : sortKeys P (.dict payload) = some w) (eventType now : Str) (s : Index P) :
    ∃ audit b s' digest,
      appendSorted P g.audit (.dict (auditEntry eventType now payload)) = .ok audit ∧
      applyAuditToState s (.str eventType) (.dict payload) = .ok s' ∧
      digestJsonl P audit = .ok digest ∧
      appendSorted P [] (.dict ({ s' with auditDigest := digest } : Index P).serializable) = .ok b ∧
      run (writeAuditWithState eventType now payload s) g =
        (.ok { s' with auditDigest := digest },
          ({ g with audit } : Gate P).withIndex b { s' with auditDigest := digest }) := by
  obtain ⟨v, hv⟩ := exists_sortKeys_auditEntry hw eventType now
  obtain ⟨audit, happend⟩ := exists_appendSorted hv g.audit
  obtain ⟨s', hs'⟩ := exists_applyAuditToState s (.str eventType) payload
  obtain ⟨rows', hrows'⟩ := exists_looseRows_of_append haudit happend
  have hdigest := digestJsonl_of_rows hrows'
  obtain ⟨b, hb⟩ := exists_indexFile { s' with
    auditDigest := P.sha256 ((encode (rows'.filterMap (dumpsSortedAscii P .compact)).flatten).getD []) }
  refine ⟨audit, b, s', _, happend, hs', hdigest, hb, ?_⟩
  unfold writeAuditWithState
  rw [run_bind_of_ok (run_state _), run_bind_of_computed happend, run_bind_of_ok (run_change _ _),
    run_bind_of_computed hs', run_bind_of_computed hdigest, run_bind_of_ok (run_writeIndex hb _)]
  rfl

end Adaad.HumanApproval

/-!
## Expiry and the last decision

`is_approved` goes by the status in its index and then by every approval of the mutation that the
audit log has, so one that has expired shuts out a later one, and one whose time cannot be read is
no reason to refuse.  `isApproved_iff_granted` says when the answer is that of the last decision or
revocation all the same.
-/

namespace Adaad.HumanApproval

open Py Method

variable {P : Platform}

/-! ### What is meant to be answered -/

/-- The status that a row of the audit log gives a mutation: a decision or a revocation. -/
def verdict (mutationId : Str) : P.Obj → Option Str
  | .dict entry =>
    match textAt entry (str "event_type"), (get entry (str "payload")).getD (.dict []) with
    | some e, .dict p =>
      if textAt p (str "mutation_id") = some mutationId then
        if e = str "approval_decision" then textAt p (str "status")
        else if e = str "approval_revoked" then some revokedStatus
        else none
      else none
    | _, _ => none
  | _ => none

/-- The rows with the times that are read for them. -/
def readings (nows : Nat → Int) (rows : List P.Obj) : List (P.Obj × Int) :=
  rows.zipIdx.map fun x => (x.1, nows x.2)

/-- The last decision or revocation of the mutation. -/
def lastVerdict (mutationId : Str) (rs : List (P.Obj × Int)) : Option (P.Obj × Int) :=
  (rs.filter fun x => (verdict mutationId x.1).isSome).getLast?

/-- How old the last decision or revocation is, if it is an approval with a time that can be
read. -/
def lastApprovalAge (env : Env) (mutationId : Str) (rs : List (P.Obj × Int)) : Option Int := do
  let x ← lastVerdict mutationId rs
  let p ← (← (approvalPayload mutationId x.1).toOption)
  age env p x.2

/-- The last decision or revocation of the mutation is an approval that has not expired. -/
def Granted (env : Env) (g : Gate P) (mutationId : Str) (nows : Nat → Int) : Prop :=
  ∃ rows, looseRows P g.audit = .ok rows ∧
    ∃ a, lastApprovalAge env mutationId (readings nows rows) = some a ∧ isExpired a = false

/-! ### When it is -/

/-- The row can be looked at, and is no approval of the mutation that has expired. -/
def Passes (env : Env) (mutationId : Str) (x : P.Obj × Int) : Prop :=
  ∃ r, approvalPayload mutationId x.1 = .ok r ∧
    ∀ p ∈ r, ∀ a, age env p x.2 = some a → isExpired a = false

/-- The row is a mapping, and so is its payload where that is looked into. -/
def Applicable (row : P.Obj) : Prop :=
  ∃ entry : Members P.Float, row = .dict entry ∧
    ∀ e, textAt entry (str "event_type") = some e →
      e = str "approval_decision" ∨ e = str "approval_revoked" →
        ∃ p : Members P.Float, (get entry (str "payload")).getD (.dict []) = .dict p

/-- The index that the gate keeps has the mutation as approved; where it keeps none, the logs can be
replayed, and they do. -/
def IndexApproves (g : Gate P) (mutationId : Str) : Prop :=
  match g.kept with
  | some s => s.mutationStatus.lookup mutationId = some approvedStatus
  | none =>
    ∃ queue audit, looseRows P g.queue = .ok queue ∧ looseRows P g.audit = .ok audit ∧
      (∀ row ∈ queue, ∃ entry : Members P.Float, row = .dict entry) ∧
      (∀ row ∈ audit, Applicable row) ∧
      (audit.filterMap (verdict mutationId)).getLast? = some approvedStatus

/-- The answer is that of the last decision or revocation.  If this is an approval that has not
expired, then the index has the mutation as approved and no row stands in the way; if it is
another verdict, or an approval with a time that cannot be read, then the index has the mutation as
something else or a row stands in the way. -/
def AnswersLast (env : Env) (g : Gate P) (mutationId : Str) (nows : Nat → Int) : Prop :=
  ∀ rows, looseRows P g.audit = .ok rows →
    match lastApprovalAge env mutationId (readings nows rows) with
    | some a => isExpired a = false →
      IndexApproves g mutationId ∧ ∀ x ∈ readings nows rows, Passes env mutationId x
    | none => ¬ (IndexApproves g mutationId ∧ ∀ x ∈ readings nows rows, Passes env mutationId x)

/-! ### Rows -/

variable {env : Env} {mutationId : Str} {row : P.Obj}

theorem lookup_setStatus (s : Index P) (m t : Option Str) :
    (setStatus s m t).mutationStatus.lookup mutationId =
      (if m = some mutationId then t else none).or (s.mutationStatus.lookup mutationId) := by
  cases m with
  | none => rfl
  | some m =>
    cases t with
    | none =>
      show s.mutationStatus.lookup mutationId = _
      split_ifs <;> rfl
    | some t =>
      show (Assoc.set s.mutationStatus m t).lookup mutationId = _
      rw [Assoc.lookup_set]
      by_cases hm : mutationId = m
      · rw [if_pos hm, if_pos (by rw [hm])]
        rfl
      · rw [if_neg hm, if_neg fun h => hm (Option.some.inj h).symm]
        rfl

theorem getD_of_textAt {d : Members P.Float} {key e : Str} (h : textAt d key = some e) (v : P.Obj) :
    (get d key).getD v = .str e := by
  unfold textAt at h
  cases hget : get d key with
  | none =>
    rw [hget] at h
    cases h
  | some w =>
    rw [hget] at h
    cases w with
    | str s => rw [Option.getD_some, Option.some.inj h]
    | none | bool | int | float | list | tuple | dict => cases h

theorem applyAuditToState_of_textAt_eq_none {entry : Members P.Float}
    (h : textAt entry (str "event_type") = none) (s : Index P) (payload : P.Obj) :
    applyAuditToState s ((get entry (str "event_type")).getD (.str [])) payload = .ok s := by
  unfold textAt at h
  unfold applyAuditToState
  cases hget : get entry (str "event_type") with
  | none =>
    rw [Option.getD_none]
    dsimp only
    rw [if_neg (by decide), if_neg (by decide)]
  | some w =>
    rw [hget] at h
    cases w with
    | str s => cases h
    | none | bool | int | float | list | tuple | dict => rfl

theorem lookup_applyAuditRow {s s' : Index P} (h : applyAuditRow s row = .ok s') :
    s'.mutationStatus.lookup mutationId =
      (verdict mutationId row).or (s.mutationStatus.lookup mutationId) := by
  cases row with
  | none | bool | int | float | str | list | tuple => cases h
  | dict entry =>
    unfold applyAuditRow at h
    unfold verdict
    dsimp only at h ⊢
    cases hevent : textAt entry (str "event_type") with
    | none =>
      rw [applyAuditToState_of_textAt_eq_none hevent] at h
      obtain rfl := Except.ok.inj h
      rfl
    | some e =>
      rw [getD_of_textAt hevent] at h
      unfold applyAuditToState at h
      dsimp only at h
      by_cases hdecision : e = str "approval_decision"
      · rw [if_pos hdecision] at h
        cases hpayload : (get entry (str "payload")).getD (.dict []) with
        | dict q =>
          rw [hpayload] at h
          obtain rfl := Except.ok.inj h
          dsimp only
          rw [lookup_setStatus, if_pos hdecision]
          cases textAt q (str "approval_id") <;> rfl
        | none | bool | int | float | str | list | tuple =>
          rw [hpayload] at h
          cases h
      · rw [if_neg hdecision] at h
        by_cases hrevoked : e = str "approval_revoked"
        · rw [if_pos hrevoked] at h
          cases hpayload : (get entry (str "payload")).getD (.dict []) with
          | dict q =>
            rw [hpayload] at h
            obtain rfl := Except.ok.inj h
            dsimp only
            rw [lookup_setStatus, if_neg hdecision, if_pos hrevoked]
          | none | bool | int | float | str | list | tuple =>
            rw [hpayload] at h
            cases h
        · rw [if_neg hrevoked] at h
          obtain rfl := Except.ok.inj h
          cases (get entry (str "payload")).getD (.dict []) with
          | dict q =>
            dsimp only
            rw [if_neg hdecision, if_neg hrevoked, ite_self]
            rfl
          | none | bool | int | float | str | list | tuple => rfl

theorem applyAuditRow_isOk_iff (s : Index P) (row : P.Obj) :
    (∃ s', applyAuditRow s row = .ok s') ↔ Applicable row := by
  constructor
  · rintro ⟨s', h⟩
    cases row with
    | none | bool | int | float | str | list | tuple => cases h
    | dict entry =>
      refine ⟨entry, rfl, fun e hevent he => ?_⟩
      unfold applyAuditRow at h
      dsimp only at h
      rw [getD_of_textAt hevent] at h
      unfold applyAuditToState at h
      dsimp only at h
      cases hpayload : (get entry (str "payload")).getD (.dict []) with
      | dict q => exact ⟨q, rfl⟩
      | none | bool | int | float | str | list | tuple =>
        rw [hpayload] at h
        rcases he with rfl | rfl
        · cases h
        · cases h
  · rintro ⟨entry, rfl, hpayload⟩
    unfold applyAuditRow
    dsimp only
    cases hevent : textAt entry (str "event_type") with
    | none => exact ⟨s, applyAuditToState_of_textAt_eq_none hevent s _⟩
    | some e =>
      rw [getD_of_textAt hevent]
      by_cases he : e = str "approval_decision" ∨ e = str "approval_revoked"
      · obtain ⟨p, hp⟩ := hpayload e hevent he
        rw [hp]
        exact exists_applyAuditToState s _ p
      · obtain ⟨hdecision, hrevoked⟩ := not_or.mp he
        refine ⟨s, ?_⟩
        unfold applyAuditToState
        dsimp only
        rw [if_neg hdecision, if_neg hrevoked]

/-! ### Replay -/

theorem lookup_foldlM_applyAuditRow {rows : List P.Obj} {s s' : Index P}
    (h : rows.foldlM applyAuditRow s = .ok s') :
    s'.mutationStatus.lookup mutationId =
      ((rows.filterMap (verdict mutationId)).getLast?).or (s.mutationStatus.lookup mutationId) := by
  induction rows generalizing s with
  | nil =>
    obtain rfl := Except.ok.inj h
    rfl
  | cons row rows ih =>
    rw [List.foldlM_cons] at h
    obtain ⟨s₁, hrow, hrest⟩ := bind_eq_ok.mp h
    rw [ih hrest, lookup_applyAuditRow hrow]
    cases hverdict : verdict mutationId row with
    | none =>
      rw [List.filterMap_cons_none hverdict]
      rfl
    | some t =>
      rw [List.filterMap_cons_some hverdict, List.getLast?_cons]
      cases (rows.filterMap (verdict mutationId)).getLast? <;> rfl

theorem applyQueueRow_isOk_iff (s : Index P) (row : P.Obj) :
    (∃ s', applyQueueRow s row = .ok s') ↔ ∃ entry : Members P.Float, row = .dict entry := by
  cases row with
  | dict entry =>
    refine iff_of_true ?_ ⟨entry, rfl⟩
    unfold applyQueueRow
    dsimp only
    cases textAt entry (str "approval_id") with
    | none => exact ⟨s, rfl⟩
    | some a =>
      dsimp only
      cases JsonDict.of? entry with
      | none => exact ⟨s, rfl⟩
      | some d => exact ⟨_, rfl⟩
  | none | bool | int | float | str | list | tuple =>
    refine iff_of_false ?_ ?_
    · rintro ⟨s', h⟩
      cases h
    · rintro ⟨entry, h⟩
      cases h

theorem mutationStatus_applyQueueRow {s s' : Index P} (h : applyQueueRow s row = .ok s') :
    s'.mutationStatus = s.mutationStatus := by
  cases row with
  | dict entry =>
    unfold applyQueueRow at h
    dsimp only at h
    cases htext : textAt entry (str "approval_id") with
    | none =>
      rw [htext] at h
      rw [← Except.ok.inj h]
    | some a =>
      rw [htext] at h
      dsimp only at h
      cases hdict : JsonDict.of? entry with
      | none =>
        rw [hdict] at h
        rw [← Except.ok.inj h]
      | some d =>
        rw [hdict] at h
        rw [← Except.ok.inj h]
  | none | bool | int | float | str | list | tuple => cases h

theorem mutationStatus_foldlM_applyQueueRow {rows : List P.Obj} {s s' : Index P}
    (h : rows.foldlM applyQueueRow s = .ok s') : s'.mutationStatus = s.mutationStatus := by
  induction rows generalizing s with
  | nil =>
    obtain rfl := Except.ok.inj h
    rfl
  | cons row rows ih =>
    rw [List.foldlM_cons] at h
    obtain ⟨s₁, hrow, hrest⟩ := bind_eq_ok.mp h
    rw [ih hrest, mutationStatus_applyQueueRow hrow]

theorem replayState_approves_iff (g : Gate P) :
    (∃ s, replayState g = .ok s ∧ s.mutationStatus.lookup mutationId = some approvedStatus) ↔
      ∃ queue audit, looseRows P g.queue = .ok queue ∧ looseRows P g.audit = .ok audit ∧
        (∀ row ∈ queue, ∃ entry : Members P.Float, row = .dict entry) ∧
        (∀ row ∈ audit, Applicable row) ∧
        (audit.filterMap (verdict mutationId)).getLast? = some approvedStatus := by
  have hlast : ∀ {queue audit : List P.Obj} {s₁ s₂ : Index P},
      queue.foldlM applyQueueRow (Index.empty P) = .ok s₁ →
      audit.foldlM applyAuditRow s₁ = .ok s₂ →
      s₂.mutationStatus.lookup mutationId =
        (audit.filterMap (verdict mutationId)).getLast? := by
    intro queue audit s₁ s₂ hs₁ hs₂
    rw [lookup_foldlM_applyAuditRow hs₂, mutationStatus_foldlM_applyQueueRow hs₁]
    exact Option.or_none
  have hqueueRows : ∀ {queue : List P.Obj} (s : Index P),
      (∃ s', queue.foldlM applyQueueRow s = .ok s') ↔
        ∀ row ∈ queue, ∃ entry : Members P.Float, row = .dict entry :=
    foldlM_isOk_iff applyQueueRow_isOk_iff
  have hauditRows : ∀ {audit : List P.Obj} (s : Index P),
      (∃ s', audit.foldlM applyAuditRow s = .ok s') ↔ ∀ row ∈ audit, Applicable row :=
    foldlM_isOk_iff applyAuditRow_isOk_iff
  constructor
  · rintro ⟨s, hs, happroved⟩
    unfold replayState at hs
    obtain ⟨queue, hqueue, hs⟩ := bind_eq_ok.mp hs
    obtain ⟨s₁, hs₁, hs⟩ := bind_eq_ok.mp hs
    obtain ⟨audit, haudit, hs⟩ := bind_eq_ok.mp hs
    obtain ⟨s₂, hs₂, hs⟩ := bind_eq_ok.mp hs
    obtain ⟨_, -, hs⟩ := bind_eq_ok.mp hs
    obtain ⟨_, -, hs⟩ := bind_eq_ok.mp hs
    obtain rfl := Except.ok.inj hs
    refine ⟨queue, audit, hqueue, haudit, (hqueueRows _).mp ⟨s₁, hs₁⟩,
      (hauditRows _).mp ⟨s₂, hs₂⟩, ?_⟩
    rw [← hlast hs₁ hs₂]
    exact happroved
  · rintro ⟨queue, audit, hqueue, haudit, hdicts, happlicable, happroved⟩
    obtain ⟨s₁, hs₁⟩ := (hqueueRows (Index.empty P)).mpr hdicts
    obtain ⟨s₂, hs₂⟩ := (hauditRows s₁).mpr happlicable
    obtain ⟨a, ha⟩ : ∃ a, digestJsonl P g.queue = .ok a := ⟨_, digestJsonl_of_rows hqueue⟩
    obtain ⟨b, hb⟩ : ∃ b, digestJsonl P g.audit = .ok b := ⟨_, digestJsonl_of_rows haudit⟩
    refine ⟨{ s₂ with queueDigest := a, auditDigest := b }, ?_, (hlast hs₁ hs₂).trans happroved⟩
    unfold replayState
    rw [hqueue, haudit, ha, hb]
    show (queue.foldlM applyQueueRow (Index.empty P) >>= _) = _
    rw [hs₁]
    show (audit.foldlM applyAuditRow s₁ >>= _) = _
    rw [hs₂]
    rfl

theorem goesBy_approves_iff (g : Gate P) :
    (∃ s, g.goesBy = .ok s ∧ s.mutationStatus.lookup mutationId = some approvedStatus) ↔
      IndexApproves g mutationId := by
  unfold Gate.goesBy IndexApproves
  cases g.kept with
  | some s =>
    constructor
    · rintro ⟨s', hs', happroved⟩
      rwa [Except.ok.inj hs']
    · exact fun happroved => ⟨s, rfl, happroved⟩
  | none => exact replayState_approves_iff g

/-! ### The scan -/

theorem exists_sortKeys_expiryPayload (m : Str) (a : Int) :
    ∃ w, sortKeys P (.dict (expiryPayload m a)) = some w := by
  refine exists_sortKeys P ?_
  rw [Value.Plain, plainMembers_iff]
  simp only [expiryPayload, List.forall_mem_cons, List.not_mem_nil, false_imp_iff, implies_true,
    and_true]
  exact ⟨⟨rfl, trivial⟩, ⟨rfl, trivial⟩, ⟨rfl, trivial⟩, ⟨rfl, trivial⟩⟩

theorem exists_run_writeAudit {g : Gate P} {s : Index P} {rows : List P.Obj}
    (hcache : g.cache = some s) (haudit : looseRows P g.audit = .ok rows)
    {payload : Members P.Float} {w : P.Obj} (hw : sortKeys P (.dict payload) = some w)
    (eventType now : Str) : ∃ g', run (writeAudit eventType now payload) g = (.ok (), g') := by
  obtain ⟨audit, b, s', digest, -, -, -, -, hrun⟩ :=
    exists_run_writeAuditWithState haudit hw eventType now s
  refine ⟨({ g with audit } : Gate P).withIndex b { s' with auditDigest := digest }, ?_⟩
  unfold writeAudit
  rw [run_bind_of_ok (run_loadIndexOrRebuild_of_cache hcache), run_bind_of_ok hrun]
  rfl

theorem scanApprovals_eq_true_iff {g : Gate P} {s : Index P} {all : List P.Obj}
    (hcache : g.cache = some s) (haudit : looseRows P g.audit = .ok all) (nows : Nat → Int)
    (auditAt : Str) (i : Nat) (rows : List P.Obj) :
    (run (scanApprovals env mutationId nows auditAt i rows) g).1 = .ok true ↔
      ∀ x ∈ rows.zipIdx i, Passes env mutationId (x.1, nows x.2) := by
  induction rows generalizing i with
  | nil => exact iff_of_true rfl (List.forall_mem_nil _)
  | cons row rows ih =>
    rw [scanApprovals, List.zipIdx_cons, List.forall_mem_cons]
    cases hpayload : approvalPayload mutationId row with
    | error e =>
      rw [run_bind_of_raised rfl]
      refine iff_of_false (fun h => by cases h) ?_
      rintro ⟨⟨r, hr, -⟩, -⟩
      rw [hpayload] at hr
      cases hr
    | ok r =>
      rw [run_bind_of_computed rfl]
      have hpasses : Passes env mutationId (row, nows i) ↔
          ∀ p ∈ r, ∀ a, age env p (nows i) = some a → isExpired a = false := by
        constructor
        · rintro ⟨r', hr', hall⟩
          rw [hpayload] at hr'
          rwa [Except.ok.inj hr']
        · exact fun hall => ⟨r, hpayload, hall⟩
      rw [hpasses]
      cases r with
      | none =>
        dsimp only
        rw [ih, and_iff_right fun p hp => by cases hp]
      | some p =>
        dsimp only
        cases hage : age env p (nows i) with
        | none =>
          dsimp only
          rw [ih]
          refine (and_iff_right fun q hq a ha => ?_).symm
          obtain rfl := Option.some.inj hq
          rw [hage] at ha
          cases ha
        | some a =>
          dsimp only
          cases hexpired : isExpired a with
          | false =>
            rw [if_neg Bool.false_ne_true, ih]
            refine (and_iff_right fun q hq a' ha' => ?_).symm
            obtain rfl := Option.some.inj hq
            rw [hage] at ha'
            rwa [← Option.some.inj ha']
          | true =>
            obtain ⟨w, hw⟩ := exists_sortKeys_expiryPayload (P := P) mutationId a
            obtain ⟨g', hrun⟩ :=
              exists_run_writeAudit hcache haudit hw (str "approval_expired") auditAt
            rw [if_pos rfl, run_bind_of_ok (run_state _), hrun]
            dsimp only
            rw [run_bind_of_ok (run_change _ _)]
            refine iff_of_false (fun h => ?_) fun h => ?_
            · exact Bool.false_ne_true (Except.ok.inj h)
            · have := h.1 p rfl a hage
              rw [hexpired] at this
              cases this

theorem isApproved_eq_true_iff (g : Gate P) (nows : Nat → Int) (auditAt : Str) :
    (run (isApproved env mutationId nows auditAt) g).1 = .ok true ↔
      IndexApproves g mutationId ∧ ∃ rows, looseRows P g.audit = .ok rows ∧
        ∀ x ∈ readings nows rows, Passes env mutationId x := by
  have hload := run_loadIndexOrRebuild g
  rw [← goesBy_approves_iff]
  unfold isApproved
  cases hgoes : g.goesBy with
  | error e =>
    rw [hgoes] at hload
    rw [run_bind_of_error hload]
    refine iff_of_false (fun h => by cases h) ?_
    rintro ⟨⟨s, hs, -⟩, -⟩
    cases hs
  | ok s =>
    rw [hgoes] at hload
    obtain ⟨i, hload⟩ := hload
    rw [run_bind_of_ok hload]
    have hstatus : (∃ s', (.ok s : Except Exc (Index P)) = .ok s' ∧
        s'.mutationStatus.lookup mutationId = some approvedStatus) ↔
          s.mutationStatus.lookup mutationId = some approvedStatus := by
      constructor
      · rintro ⟨s', hs', happroved⟩
        rwa [Except.ok.inj hs']
      · exact fun happroved => ⟨s, rfl, happroved⟩
    rw [hstatus]
    by_cases happroved : s.mutationStatus.lookup mutationId = some approvedStatus
    · rw [if_neg (not_not_intro happroved), and_iff_right happroved,
        run_bind_of_ok (run_state _)]
      cases haudit : looseRows P g.audit with
      | error e =>
        rw [run_bind_of_raised rfl]
        refine iff_of_false (fun h => by cases h) ?_
        rintro ⟨rows, hrows, -⟩
        cases hrows
      | ok rows =>
        rw [run_bind_of_computed rfl,
          scanApprovals_eq_true_iff (g := { g with index := i, cache := some s }) rfl haudit]
        constructor
        · exact fun h => ⟨rows, rfl, List.forall_mem_map.mpr h⟩
        · rintro ⟨rows', hrows', h⟩
          obtain rfl := Except.ok.inj hrows'
          exact List.forall_mem_map.mp h
    · rw [if_pos happroved]
      refine iff_of_false (fun h => ?_) fun h => happroved h.1
      exact Bool.false_ne_true (Except.ok.inj h)

theorem exists_of_lastApprovalAge {rs : List (P.Obj × Int)} {a : Int}
    (h : lastApprovalAge env mutationId rs = some a) :
    ∃ x ∈ rs, ∃ p, approvalPayload mutationId x.1 = .ok (some p) ∧ age env p x.2 = some a := by
  obtain ⟨x, hx, h⟩ := Option.bind_eq_some_iff.mp h
  obtain ⟨r, hr, h⟩ := Option.bind_eq_some_iff.mp h
  obtain ⟨p, rfl, hage⟩ := Option.bind_eq_some_iff.mp h
  refine ⟨x, List.mem_of_mem_filter (List.mem_of_getLast? hx), p, ?_, hage⟩
  cases hpayload : approvalPayload mutationId x.1 with
  | error e =>
    rw [hpayload] at hr
    cases hr
  | ok r =>
    rw [hpayload] at hr
    rw [Option.some.inj hr]

/-- The days from the first of January 1970 to a date. -/
def daysTo (y m d : Nat) : Int :=
  let y' : Int := if m ≤ 2 then y - 1 else y
  365 * y' + y' / 4 - y' / 100 + y' / 400 + (153 * ((m + 9) % 12) + 2) / 5 + d - 719469

def natOf (digits : Str) : Option Nat :=
  if digits.all isDigit then some (digits.foldl (fun n c => 10 * n + (c - 48)) 0) else none

/-- The time in a text of the form that `now_iso` has. -/
def utcInstant (t : Str) : Option Int := do
  let y ← natOf (t.take 4)
  let m ← natOf ((t.drop 5).take 2)
  let d ← natOf ((t.drop 8).take 2)
  let hour ← natOf ((t.drop 11).take 2)
  let minute ← natOf ((t.drop 14).take 2)
  let second ← natOf ((t.drop 17).take 2)
  if t.length = 20 ∧ t.drop 19 = str "Z" then
    some ((((daysTo y m d * 24 + hour) * 60 + minute) * 60 + second) * 1000000)
  else none

example : utcInstant (str "2026-01-09T00:00:10Z") = some (1767916810 * 1000000) := by
  decide +kernel

def exampleEnv : Env where
  strictHuman0 := false
  upper := id
  instant := utcInstant

/-- A decision as `record_decision` writes it. -/
def exampleRow (decidedAt digest : Str) : P.Obj :=
  .dict (auditEntry (str "approval_decision") decidedAt
    (decisionPayload (str "appr-7226de6923c028db") (.str (str "m")) (.str (str "e")) approvedStatus
      (str "op") decidedAt [] digest))

/-- The mutation was approved, and again eight days later. -/
def exampleLog : Bytes :=
  [exampleRow (str "2026-01-01T00:00:00Z")
      (str "5772f96385463faeb230e9157cbe9f3e2bc8954ca2a1ab72cb42ca79e237e35b"),
    exampleRow (str "2026-01-09T00:00:00Z")
      (str "8c1c1a7ad9f97ad9b19e368aceb93639bf855bd8bfa1f19a7cdf8517e7b1a9c8")].foldl
    (fun file row => (appendSorted reference file row).toOption.getD []) []

def exampleNow : Int := 1767916810 * 1000000

/-- The first row is an approval that has expired, and the last decision is one that has not. -/
def secondFresh (env : Env) (mutationId : Str) (now : Int) (rows : List P.Obj) : Bool :=
  match rows.head?.map (approvalPayload mutationId),
      lastApprovalAge env mutationId (readings (fun _ => now) rows) with
  | some (.ok (some p)), some a => (age env p now).any isExpired && !isExpired a
  | _, _ => false

theorem not_granted_of_secondFresh {g : Gate P} {now : Int} {rows : List P.Obj}
    (haudit : looseRows P g.audit = .ok rows) (h : secondFresh env mutationId now rows = true)
    (auditAt : Str) :
    Granted env g mutationId (fun _ => now) ∧
      (run (isApproved env mutationId (fun _ => now) auditAt) g).1 ≠ .ok true := by
  unfold secondFresh at h
  cases rows with
  | nil => cases h
  | cons row rows =>
    rw [List.head?_cons, Option.map_some] at h
    cases hlast : lastApprovalAge env mutationId (readings (fun _ => now) (row :: rows)) with
    | none =>
      rw [hlast] at h
      split at h <;> simp_all
    | some a =>
      rw [hlast] at h
      cases hpayload : approvalPayload mutationId row with
      | error e =>
        rw [hpayload] at h
        cases h
      | ok r =>
        rw [hpayload] at h
        cases r with
        | none => cases h
        | some p =>
          dsimp only at h
          rw [Bool.and_eq_true, Option.any_eq_true, Bool.not_eq_true'] at h
          obtain ⟨⟨b, hb, hexpired⟩, hfresh⟩ := h
          refine ⟨⟨_, haudit, a, hlast, hfresh⟩, fun happroved => ?_⟩
          obtain ⟨-, rows', hrows', hpasses⟩ := (isApproved_eq_true_iff _ _ _).mp happroved
          obtain rfl := Except.ok.inj (haudit.symm.trans hrows')
          obtain ⟨r, hr, hall⟩ := hpasses (row, now) (by simp [readings])
          rw [hpayload] at hr
          have := hall p (Except.ok.inj hr ▸ rfl) b hb
          rw [hexpired] at this
          cases this

end Adaad.HumanApproval
