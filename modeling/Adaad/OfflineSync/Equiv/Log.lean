import Adaad.OfflineSync.Queue
import Adaad.Py.Json.Equiv.Sort

/-!
# What a call leaves

Logging an event makes the log longer and leaves the rest of the queue (`appendEvent_eq_ok`); a
change of memory stays when the event cannot be logged (`ops_change`).
-/

namespace Adaad.OfflineSync

open Py

variable {P : Platform}

/-! ### Logging -/

theorem appendEvent_eq_ok {q q' : Queue P} {e : Event P} :
    appendEvent q e = .ok q' ↔
      ∃ t b, dumpsSorted P .spaced (.dict e.toDict) = some t ∧ encode (t ++ [lf]) = some b ∧
        q' = { q with log := q.log ++ b, events := q.events ++ [e] } := by
  unfold appendEvent
  constructor
  · intro h
    split at h
    · cases h
    · next t ht =>
      split at h
      · cases h
      · next b hb => exact ⟨t, b, ht, hb, (Except.ok.inj h).symm⟩
  · rintro ⟨t, b, ht, hb, rfl⟩
    rw [ht]
    dsimp only
    rw [hb]

variable {cfg : Config} {q q' : Queue P} {op : Operation P} {e : Event P}

theorem log_ne_of_appendEvent (h : appendEvent q e = .ok q') : q'.log ≠ q.log := by
  obtain ⟨t, b, -, hb, rfl⟩ := appendEvent_eq_ok.mp h
  intro hlog
  have hb₀ : b = [] := List.append_right_eq_self.mp hlog
  rw [hb₀] at hb
  have hdecode := decode_encode hb
  rw [show decode [] = some [] from rfl] at hdecode
  exact List.append_ne_nil_of_right_ne_nil t (List.cons_ne_nil lf [])
    (Option.some.inj hdecode).symm

theorem exists_appendEvent (q : Queue P) (hplain : (Value.dict e.toDict).Plain)
    (hchars : Encodable (Value.dict e.toDict).chars) : ∃ q', appendEvent q e = .ok q' := by
  obtain ⟨w, hw⟩ := exists_sortKeys P hplain
  have hline : Encodable (dumps P .spaced w ++ [lf]) := by
    refine ((encodable_dumps_iff P .spaced).mpr fun c hc => ?_).append
      (encodable_of_ascii (by decide))
    exact hchars c ((mem_chars_sortKeys P hw).mp hc)
  obtain ⟨b, hb⟩ := exists_encode_iff.mpr hline
  refine ⟨_, appendEvent_eq_ok.mpr ⟨_, b, ?_, hb, rfl⟩⟩
  rw [dumpsSorted, hw, Option.map_some]

theorem ops_of_appendEvent (h : appendEvent q e = .ok q') : q'.ops = q.ops := by
  obtain ⟨t, b, -, -, rfl⟩ := appendEvent_eq_ok.mp h
  rfl

theorem trimAckedIndex_eq (cfg : Config) (q : Queue P) :
    ∃ ids, trimAckedIndex cfg q = { q with ackedIds := ids } := by
  unfold trimAckedIndex
  split
  · exact ⟨q.ackedIds, rfl⟩
  · dsimp only
    split
    · exact ⟨q.ackedIds, rfl⟩
    · exact ⟨_, rfl⟩

/-- What follows a change at most trims the index. -/
def Trims (after : Queue P → Queue P) : Prop :=
  ∀ q, ∃ ids, after q = { q with ackedIds := ids }

theorem trims_id : Trims (id : Queue P → Queue P) := fun q => ⟨q.ackedIds, rfl⟩

theorem trims_trimAckedIndex (cfg : Config) : Trims (trimAckedIndex (P := P) cfg) :=
  trimAckedIndex_eq cfg

theorem ops_change {after : Queue P → Queue P} (hafter : Trims after) :
    (change q op e after).2.ops = q.ops := by
  unfold change
  split
  · rfl
  · next logged h =>
    obtain ⟨ids, hids⟩ := hafter logged
    have hops : logged.ops = q.ops := ops_of_appendEvent h
    rw [hids]
    exact hops

theorem log_change_ne {after : Queue P → Queue P} (hafter : Trims after) {op' : Operation P}
    (h : (change q op e after).1 = .ok op') : (change q op e after).2.log ≠ q.log ∧ op' = op := by
  unfold change at h ⊢
  split at h
  · cases h
  · next logged hlogged =>
    obtain ⟨ids, hids⟩ := hafter logged
    have hlog : logged.log ≠ q.log := log_ne_of_appendEvent hlogged
    rw [hids]
    exact ⟨hlog, (Except.ok.inj h).symm⟩

/-! ### The checks of a call -/

theorem inConflict_eq_ok {opId : Str} :
    inConflict q opId = .ok op ↔ q.ops.lookup opId = some op ∧ op.state = .conflict := by
  unfold inConflict
  split
  · next h =>
    rw [h]
    exact iff_of_false (fun he => by cases he) fun he => by cases he.1
  · next op' h =>
    rw [h]
    by_cases hstate : op'.state = .conflict
    · rw [if_neg (not_not.mpr hstate)]
      constructor
      · intro he
        obtain rfl := Except.ok.inj he
        exact ⟨rfl, hstate⟩
      · exact fun he => congrArg _ (Option.some.inj he.1)
    · rw [if_pos hstate]
      refine iff_of_false (fun he => by cases he) fun he => hstate ?_
      rw [Option.some.inj he.1]
      exact he.2

theorem lookup_of_checkAck {ack : Members P.Float} {opId : Str} {status : AckStatus}
    (h : checkAck q ack = .ok (opId, op, status)) : q.ops.lookup opId = some op := by
  unfold checkAck at h
  dsimp only at h
  split at h
  · cases h
  split at h
  · cases h
  · next op' hop =>
    split at h
    · cases h
    split at h
    · cases h
    · obtain ⟨hid, hrest⟩ := Prod.mk.inj (Except.ok.inj h)
      rw [← hid, hop, (Prod.mk.inj hrest).1]

/-- The operation that is enqueued. -/
structure Enqueued (P : Platform) (op : Operation P) : Prop where
  opId : ∀ c ∈ op.opId, isHexDigit c = true
  length : op.opId.length = 24
  digest : ∀ c ∈ op.opDigest, isHexDigit c = true
  state : op.state = .pending

theorem sha256_of_opDigest {payload : Members P.Float} {s : Str}
    (h : (opDigest payload).mapError Fault.raised = .ok s) : ∃ b, s = P.sha256 b := by
  have h := mapError_eq_ok.mp h
  unfold opDigest at h
  split at h
  · cases h
  split at h
  · cases h
  · next b _ => exact ⟨b, (Except.ok.inj h).symm⟩

theorem enqueued_newOperation {operationType ledgerKey nowTs : Str} {payload : Members P.Float}
    {baseVersion : Option Int}
    (h : newOperation cfg q operationType ledgerKey payload nowTs baseVersion = .ok op) :
    Enqueued P op ∧ op.operationType = operationType ∧ op.ledgerKey = ledgerKey ∧
      op.payload = .dict payload ∧ op.baseVersion = baseVersion ∧ op.enqueuedTs = nowTs ∧
      op.nextRetryTs = nowTs := by
  unfold newOperation at h
  split at h
  · cases h
  · obtain ⟨seed, hseed, h⟩ := bind_eq_ok.mp h
    obtain ⟨digest, hdigest, h⟩ := bind_eq_ok.mp h
    obtain ⟨b, rfl⟩ := sha256_of_opDigest hseed
    obtain ⟨b', rfl⟩ := sha256_of_opDigest hdigest
    obtain rfl := Except.ok.inj h
    refine ⟨⟨fun c hc => P.isHexDigit_sha256 b c (List.mem_of_mem_take hc), ?_,
      P.isHexDigit_sha256 b', rfl⟩, rfl, rfl, rfl, rfl, rfl, rfl⟩
    show ((P.sha256 b).take 24).length = 24
    rw [List.length_take, P.length_sha256]
    decide

end Adaad.OfflineSync
