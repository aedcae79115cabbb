import Adaad.Evolution.AgmEvent
import Adaad.OfflineSync.Equiv.Log
import Adaad.Py.IsoTime

/-!
# The back-off of a retry

`mark_delivery_attempt` writes the back-off behind the timestamp of the attempt, as text, and
`pending_replay` compares texts.  After an attempt at `…Z`, without a fraction, the operation is due
from the next second on, whatever the back-off is (`mem_pendingReplay_iff_seconds`); after any other
it is due within the same second.  The back-off is kept when it is one second
(`backsOff_iff`).
-/

namespace Adaad.OfflineSync

open Py IsoTime AgmEvent Run

variable {P : Platform} {cfg : Config} {q : Queue P} {op : Operation P} {opId nowTs : Str}

/-! ### What is meant -/

/-- A timestamp of the calendar. -/
abbrev Time :=
  Timestamp daysInMonth

/-- `backoff`, at the next attempt. -/
def Operation.backoff (cfg : Config) (op : Operation P) : Int :=
  min cfg.limits.maxRetryBackoffSeconds (cfg.limits.minRetryBackoffSeconds * 2 ^ op.attemptCount)

/-- The queue after an attempt and the calls that follow it. -/
def afterAttempt (cfg : Config) (q : Queue P) (opId : Str) (t : Time) (calls : List (Call P)) :
    Queue P :=
  run (step cfg) (markDeliveryAttempt cfg q opId t.text).2 calls

/-- As long as the operation is as the attempt has left it, it is replayed from the end of the
back-off on, and not before. -/
def BacksOff (cfg : Config) (q : Queue P) (opId : Str) (op : Operation P) (t : Time) : Prop :=
  ∀ (calls : List (Call P)) (now : Time),
    (afterAttempt cfg q opId t calls).ops.lookup opId = some (op.attempted cfg t.text) →
      (op.attempted cfg t.text ∈ pendingReplay (afterAttempt cfg q opId t calls) now.text ↔
        t.instant + op.backoff cfg ≤ now.instant)

/-- The timestamp is a second, written with `Z`. -/
def IsWhole (t : Time) : Prop :=
  t.fraction = [] ∧ t.zone = .z

/-! ### The attempt -/

theorem nextRetryTs_attempted (cfg : Config) (op : Operation P) (nowTs : Str) :
    (op.attempted cfg nowTs).nextRetryTs =
      nowTs ++ (str "+" ++ (intText (op.backoff cfg) ++ str "s")) := rfl

theorem lookup_markDeliveryAttempt (hop : q.ops.lookup opId = some op) (hstate : op.state = .pending)
    (nowTs : Str) :
    (markDeliveryAttempt cfg q opId nowTs).2.ops.lookup opId = some (op.attempted cfg nowTs) := by
  unfold markDeliveryAttempt
  rw [hop]
  dsimp only
  rw [if_neg (not_not.mpr hstate), ops_change trims_id, Assoc.lookup_set, if_pos rfl]

theorem mem_pendingReplay_iff (hop : q.ops.lookup opId = some op) :
    op ∈ pendingReplay q nowTs ↔ op.state = .pending ∧ strLe op.nextRetryTs nowTs = true := by
  have hmem : op ∈ q.ops.map Prod.snd := List.mem_map.mpr ⟨(opId, op), Assoc.mem_of_lookup hop, rfl⟩
  unfold pendingReplay
  rw [List.mem_filter, List.mem_insertionSort, decide_eq_true_eq]
  exact and_iff_right hmem

/-! ### The comparison -/

theorem daysInMonth_lt (year month : Nat) : daysInMonth year month < 100 := by
  unfold daysInMonth
  split_ifs <;> decide

theorem one_le_daysInMonth (year month : Nat) : 1 ≤ daysInMonth year month := by
  unfold daysInMonth
  split_ifs <;> decide

theorem strLe_text_append_iff (t now : Time) (more : Str) :
    strLe (t.text ++ more) now.text = true ↔ t.date.seconds < now.date.seconds ∨
      t.date.seconds = now.date.seconds ∧ strLe (t.tail ++ more) now.tail = true := by
  rw [Timestamp.text, Timestamp.text, List.append_assoc]
  exact DateTime.strLe_text_append _ _ daysInMonth_lt _ _

theorem not_strLe_append_self (s : Str) (c : Nat) (more : Str) :
    strLe (s ++ c :: more) s = false := by
  induction s with
  | nil => rfl
  | cons a s ih => rw [List.cons_append, strLe_cons_self, ih]

theorem not_strLe_z (now : Time) (c : Nat) (more : Str) :
    strLe (90 :: c :: more) now.tail = false := by
  unfold Timestamp.tail
  by_cases hfraction : now.fraction = []
  · rw [if_pos hfraction, List.nil_append]
    cases now.zone with
    | z => rfl
    | offset => rfl
  · rw [if_neg hfraction]
    rfl

theorem strLe_z_of_not_isWhole {t : Time} (h : ¬ IsWhole t) (more : Str) :
    strLe (t.tail ++ more) (str "Z") = true := by
  unfold Timestamp.tail
  by_cases hfraction : t.fraction = []
  · rw [if_pos hfraction, List.nil_append]
    cases hzone : t.zone with
    | z => exact absurd ⟨hfraction, hzone⟩ h
    | offset => rfl
  · rw [if_neg hfraction]
    rfl

/-! ### When an operation is due -/

variable {t : Time} {calls : List (Call P)}

theorem mem_pendingReplay_attempted (hstate : op.state = .pending)
    (hkept : (afterAttempt cfg q opId t calls).ops.lookup opId = some (op.attempted cfg t.text))
    (now : Time) :
    op.attempted cfg t.text ∈ pendingReplay (afterAttempt cfg q opId t calls) now.text ↔
      t.date.seconds < now.date.seconds ∨ t.date.seconds = now.date.seconds ∧
        strLe (t.tail ++ 43 :: (intText (op.backoff cfg) ++ str "s")) now.tail = true := by
  rw [mem_pendingReplay_iff hkept, nextRetryTs_attempted, ← strLe_text_append_iff]
  exact and_iff_right hstate

theorem mem_pendingReplay_iff_seconds (hstate : op.state = .pending) (hwhole : IsWhole t)
    (hkept : (afterAttempt cfg q opId t calls).ops.lookup opId = some (op.attempted cfg t.text))
    (now : Time) :
    op.attempted cfg t.text ∈ pendingReplay (afterAttempt cfg q opId t calls) now.text ↔
      t.date.seconds < now.date.seconds := by
  have htail : t.tail = [90] := by
    rw [Timestamp.tail, hwhole.1, hwhole.2, if_pos rfl]
    rfl
  rw [mem_pendingReplay_attempted hstate hkept, htail, List.singleton_append, not_strLe_z]
  simp only [Bool.false_eq_true, and_false, or_false]

theorem mem_pendingReplay_ofDate (hstate : op.state = .pending) (hwhole : ¬ IsWhole t)
    (hkept : (afterAttempt cfg q opId t calls).ops.lookup opId = some (op.attempted cfg t.text)) :
    op.attempted cfg t.text ∈
      pendingReplay (afterAttempt cfg q opId t calls) (Timestamp.ofDate t.date).text := by
  rw [mem_pendingReplay_attempted hstate hkept]
  exact .inr ⟨rfl, strLe_z_of_not_isWhole hwhole _⟩

theorem not_mem_pendingReplay_self (hstate : op.state = .pending)
    (hkept : (afterAttempt cfg q opId t calls).ops.lookup opId = some (op.attempted cfg t.text)) :
    op.attempted cfg t.text ∉ pendingReplay (afterAttempt cfg q opId t calls) t.text := by
  rw [mem_pendingReplay_attempted hstate hkept, not_strLe_append_self]
  simp

/-! ### When the back-off is kept -/

theorem BacksOff.one_le (h : BacksOff cfg q opId op t) (hop : q.ops.lookup opId = some op)
    (hstate : op.state = .pending) : 1 ≤ op.backoff cfg := by
  have hkept : (afterAttempt cfg q opId t []).ops.lookup opId = some (op.attempted cfg t.text) :=
    lookup_markDeliveryAttempt hop hstate _
  by_contra hlt
  have hle : ((op.backoff cfg : Int) : ℚ) ≤ 0 := by
    have : op.backoff cfg ≤ 0 := by omega
    exact_mod_cast this
  have hdue : t.instant + op.backoff cfg ≤ t.instant := by linarith
  exact not_mem_pendingReplay_self hstate hkept ((h [] t hkept).mpr hdue)

theorem BacksOff.isWhole (h : BacksOff cfg q opId op t) (hop : q.ops.lookup opId = some op)
    (hstate : op.state = .pending) : IsWhole t := by
  have hkept : (afterAttempt cfg q opId t []).ops.lookup opId = some (op.attempted cfg t.text) :=
    lookup_markDeliveryAttempt hop hstate _
  have hone : (1 : ℚ) ≤ op.backoff cfg := by exact_mod_cast h.one_le hop hstate
  by_contra hwhole
  have hdue := (h [] _ hkept).mp (mem_pendingReplay_ofDate hstate hwhole hkept)
  rw [Timestamp.instant_ofDate] at hdue
  have hle := t.seconds_le_instant
  linarith

theorem BacksOff.eq_one_or_isLast (h : BacksOff cfg q opId op t) (hop : q.ops.lookup opId = some op)
    (hstate : op.state = .pending) : op.backoff cfg = 1 ∨ t.date.IsLast := by
  have hkept : (afterAttempt cfg q opId t []).ops.lookup opId = some (op.attempted cfg t.text) :=
    lookup_markDeliveryAttempt hop hstate _
  have hwhole := h.isWhole hop hstate
  rw [or_iff_not_imp_right]
  intro hlast
  obtain ⟨d, hd⟩ := t.date.exists_next one_le_daysInMonth hlast
  have hlt : t.date.seconds < (Timestamp.ofDate d).date.seconds := by
    show t.date.seconds < d.seconds
    omega
  have hdue := (h [] _ hkept).mp
    ((mem_pendingReplay_iff_seconds hstate hwhole hkept (Timestamp.ofDate d)).mpr hlt)
  rw [Timestamp.instant_ofDate, Timestamp.instant_of_fraction_eq_nil _ hwhole.1, hd] at hdue
  have hle : ((op.backoff cfg : Int) : ℚ) ≤ 1 := by
    push_cast at hdue
    linarith
  have hle' : op.backoff cfg ≤ 1 := by exact_mod_cast hle
  have hone := h.one_le hop hstate
  omega

theorem backsOff_of_isWhole (hstate : op.state = .pending) (hwhole : IsWhole t)
    (hone : 1 ≤ op.backoff cfg) (h : op.backoff cfg = 1 ∨ t.date.IsLast) :
    BacksOff cfg q opId op t := by
  intro calls now hkept
  rw [mem_pendingReplay_iff_seconds hstate hwhole hkept,
    Timestamp.instant_of_fraction_eq_nil _ hwhole.1]
  have hnow := now.instant_lt
  have hnow' := now.seconds_le_instant
  have hone' : (1 : ℚ) ≤ op.backoff cfg := by exact_mod_cast hone
  constructor
  · intro hlt
    rcases h with hb | hlast
    · have hsucc : (t.date.seconds : ℚ) + 1 ≤ now.date.seconds := by exact_mod_cast hlt
      rw [hb]
      push_cast
      linarith
    · exact absurd hlt (Nat.not_lt_of_le (DateTime.seconds_le_of_isLast _ now.date hlast))
  · intro hdue
    have hlt : (t.date.seconds : ℚ) < now.date.seconds := by linarith
    exact_mod_cast hlt

/-- The back-off after an attempt is kept exactly when the attempt is at a second that is written
with `Z`, and the back-off is one second, or not less and there is no next second. -/
theorem backsOff_iff (hop : q.ops.lookup opId = some op) (hstate : op.state = .pending) (t : Time) :
    BacksOff cfg q opId op t ↔
      IsWhole t ∧ 1 ≤ op.backoff cfg ∧ (op.backoff cfg = 1 ∨ t.date.IsLast) := by
  constructor
  · intro h
    exact ⟨h.isWhole hop hstate, h.one_le hop hstate, h.eq_one_or_isLast hop hstate⟩
  · rintro ⟨hwhole, hone, h⟩
    exact backsOff_of_isWhole hstate hwhole hone h

/-! ### A back-off of two seconds -/

/-- The first of January of 2026, at midnight. -/
def exampleTime : Time :=
  .ofDate ⟨2026, 1, 1, 0, 0, 0, by decide, by decide, by decide, by decide, by decide, by decide,
    by decide, by decide⟩

example : exampleTime.text = str "2026-01-01T00:00:00Z" := by
  decide +kernel

def exampleOperation : Operation reference where
  opId := str "a"
  opSeq := 1
  operationType := str "create"
  ledgerKey := str "k"
  payload := .dict []
  baseVersion := none
  enqueuedTs := exampleTime.text
  nextRetryTs := exampleTime.text
  attemptCount := 0
  state := .pending
  opDigest := str "d"

def exampleQueue : Queue reference where
  ops := [(str "a", exampleOperation)]
  nextSeq := 2

/-- With the limits that a queue has, the first attempt backs off for two seconds, and the
operation is due after one. -/
theorem backsOff_iff_two :
    BacksOff { deviceId := str "d" } exampleQueue (str "a") exampleOperation exampleTime ↔
      IsWhole exampleTime ∧ 1 ≤ exampleOperation.backoff { deviceId := str "d" } ∧
        (exampleOperation.backoff { deviceId := str "d" } = 1 ∨ exampleTime.date.IsLast) :=
  backsOff_iff rfl rfl exampleTime

theorem not_backsOff :
    ¬ ∀ (cfg : Config) (q : Queue reference) (opId : Str) (op : Operation reference) (t : Time),
      q.ops.lookup opId = some op → op.state = .pending → BacksOff cfg q opId op t := by
  intro h
  have hbacks : BacksOff { deviceId := str "d" } exampleQueue (str "a") exampleOperation exampleTime :=
    h _ _ _ _ _ rfl rfl
  rcases hbacks.eq_one_or_isLast rfl rfl with hone | hlast
  · exact absurd hone (by decide)
  · exact absurd hlast.1 (by decide)

end Adaad.OfflineSync
