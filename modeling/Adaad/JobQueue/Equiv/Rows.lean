import Adaad.JobQueue.JobQueue
import Adaad.Py.Json.Equiv.Sort
import Mathlib.Logic.Function.Basic

/-!
# The rows of the queue

Both backends keep a list of rows with distinct job ids, and put a row into it with `upsertInto`.
To `findJob` such a list is a finite map, and its order does not matter.
-/

namespace Adaad.JobQueue

open Py

variable {T A B : Type} {rows rows' : List (Job T A)} {row : Job T A} {jobId : Str}

def Distinct (rows : List (Job T A)) : Prop :=
  (rows.map Job.jobId).Nodup

theorem Distinct.perm (h : Distinct rows) (hperm : rows.Perm rows') : Distinct rows' :=
  (hperm.map Job.jobId).nodup h

theorem perm_sorted (c : Clock T) (rows : List (Job T A)) : (c.sorted rows).Perm rows :=
  List.perm_insertionSort _ rows

theorem findJob_nil (jobId : Str) : findJob ([] : List (Job T A)) jobId = none := rfl

theorem findJob_cons (row : Job T A) (rows : List (Job T A)) (jobId : Str) :
    findJob (row :: rows) jobId = if row.jobId = jobId then some row else findJob rows jobId := by
  unfold findJob
  rw [List.find?_cons]
  by_cases h : row.jobId = jobId <;> simp [h]

theorem jobId_of_findJob (h : findJob rows jobId = some row) : row.jobId = jobId := by
  have := List.find?_some h
  exact of_decide_eq_true this

theorem mem_of_findJob (h : findJob rows jobId = some row) : row ∈ rows :=
  List.mem_of_find?_eq_some h

theorem findJob_isSome_iff : (findJob rows jobId).isSome = true ↔ jobId ∈ rows.map Job.jobId := by
  unfold findJob
  rw [List.find?_isSome, List.mem_map]
  simp

theorem findJob_eq_some_iff (h : Distinct rows) :
    findJob rows jobId = some row ↔ row ∈ rows ∧ row.jobId = jobId := by
  constructor
  · intro hfind
    exact ⟨mem_of_findJob hfind, jobId_of_findJob hfind⟩
  · rintro ⟨hmem, rfl⟩
    induction rows with
    | nil => exact absurd hmem List.not_mem_nil
    | cons r rows ih =>
      have hr := List.nodup_cons.mp h
      rw [findJob_cons]
      rcases List.mem_cons.mp hmem with rfl | hmem
      · rw [if_pos rfl]
      · have hne : r.jobId ≠ row.jobId := by
          intro heq
          exact hr.1 (heq ▸ List.mem_map_of_mem hmem)
        rw [if_neg hne]
        exact ih hr.2 hmem

theorem findJob_perm (h : Distinct rows) (hperm : rows.Perm rows') (jobId : Str) :
    findJob rows jobId = findJob rows' jobId := by
  refine Option.ext fun row => ?_
  rw [findJob_eq_some_iff h, findJob_eq_some_iff (h.perm hperm), hperm.mem_iff]

theorem findJob_map {f : Job T A → Job T B} (hf : ∀ row, (f row).jobId = row.jobId)
    (rows : List (Job T A)) (jobId : Str) :
    findJob (rows.map f) jobId = (findJob rows jobId).map f := by
  induction rows with
  | nil => rfl
  | cons row rows ih =>
    rw [List.map_cons, findJob_cons, findJob_cons, hf, ih]
    split <;> rfl

theorem findJob_upsertInto (row : Job T A) (rows : List (Job T A)) (jobId : Str) :
    findJob (upsertInto row rows) jobId =
      if row.jobId = jobId then some row else findJob rows jobId := by
  induction rows with
  | nil => exact findJob_cons row [] jobId
  | cons candidate rows ih =>
    unfold upsertInto
    by_cases hsame : candidate.jobId = row.jobId
    · rw [if_pos hsame, findJob_cons, findJob_cons, hsame]
      split <;> rfl
    · rw [if_neg hsame, findJob_cons, findJob_cons, ih]
      by_cases hrow : row.jobId = jobId
      · rw [if_pos hrow, if_neg (hrow ▸ hsame), if_pos hrow]
      · rw [if_neg hrow, if_neg hrow]

theorem mem_upsertInto {r : Job T A} (h : r ∈ upsertInto row rows) : r = row ∨ r ∈ rows := by
  induction rows with
  | nil => exact Or.inl (List.mem_singleton.mp h)
  | cons candidate rows ih =>
    unfold upsertInto at h
    split at h
    · exact (List.mem_cons.mp h).imp_right (List.mem_cons_of_mem _)
    · rcases List.mem_cons.mp h with rfl | h
      · exact Or.inr (List.mem_cons_self)
      · exact (ih h).imp_right (List.mem_cons_of_mem _)

theorem upsertInto_map {f : Job T A → Job T B} (hf : ∀ row, (f row).jobId = row.jobId)
    (row : Job T A) (rows : List (Job T A)) :
    (upsertInto row rows).map f = upsertInto (f row) (rows.map f) := by
  induction rows with
  | nil => rfl
  | cons candidate rows ih =>
    rw [List.map_cons]
    unfold upsertInto
    rw [hf, hf]
    by_cases hsame : candidate.jobId = row.jobId
    · rw [if_pos hsame, if_pos hsame, List.map_cons]
    · rw [if_neg hsame, if_neg hsame, List.map_cons, ih]

theorem mem_upsertInto_self (row : Job T A) (rows : List (Job T A)) :
    row ∈ upsertInto row rows := by
  have h := findJob_upsertInto row rows row.jobId
  rw [if_pos rfl] at h
  exact mem_of_findJob h

theorem Distinct.upsertInto (h : Distinct rows) (row : Job T A) :
    Distinct (upsertInto row rows) := by
  induction rows with
  | nil => exact List.nodup_singleton _
  | cons candidate rows ih =>
    have hc := List.nodup_cons.mp h
    unfold JobQueue.upsertInto
    by_cases hsame : candidate.jobId = row.jobId
    · rw [if_pos hsame]
      exact List.nodup_cons.mpr ⟨hsame ▸ hc.1, hc.2⟩
    · rw [if_neg hsame]
      refine List.nodup_cons.mpr ⟨?_, ih hc.2⟩
      rw [← findJob_isSome_iff, findJob_upsertInto, if_neg (Ne.symm hsame), findJob_isSome_iff]
      exact hc.1

theorem perm_upsertInto (h : Distinct rows) (row : Job T A) :
    (upsertInto row rows).Perm (row :: rows.filter fun r => r.jobId ≠ row.jobId) := by
  induction rows with
  | nil => exact List.Perm.refl _
  | cons candidate rows ih =>
    have hc := List.nodup_cons.mp h
    unfold upsertInto
    by_cases hsame : candidate.jobId = row.jobId
    · have hrest : rows.filter (fun r => r.jobId ≠ row.jobId) = rows := by
        refine List.filter_eq_self.mpr fun r hr => decide_eq_true ?_
        intro heq
        exact hc.1 (hsame.trans heq.symm ▸ List.mem_map_of_mem hr)
      rw [if_pos hsame, List.filter_cons_of_neg (by simp [hsame]), hrest]
    · rw [if_neg hsame, List.filter_cons_of_pos (by simp [hsame])]
      exact ((ih hc.2).cons candidate).trans (List.Perm.swap _ _ _)

@[simp] theorem status_jobId (row : Job T A) : row.status.jobId = row.jobId := rfl
@[simp] theorem status_state (row : Job T A) : row.status.state = row.state := rfl
@[simp] theorem status_attemptCount (row : Job T A) :
    row.status.attemptCount = row.attemptCount := rfl
@[simp] theorem status_maxAttempts (row : Job T A) :
    row.status.maxAttempts = row.maxAttempts := rfl

end Adaad.JobQueue

/-!
## The order of the rows

Where no time of creation is `NaN`, the rows are sorted by a linear order on the pairs of time and
job id; so the order that they come in does not matter (`sorted_eq_of_perm`), nor what the rows have
besides (`sorted_map`).
-/

namespace Adaad.JobQueue

open Py

variable {T A B : Type} (c : Clock T)

/-- The order of the keys; a key with `NaN` comes after all. -/
def KeyLe (a b : T × Str) : Prop :=
  c.isNan b.1 = true ∨ c.isNan a.1 = false ∧ c.keyLt b a = false

instance (a b : T × Str) : Decidable (KeyLe c a b) :=
  inferInstanceAs (Decidable (_ ∨ _))

theorem lt_asymm {t u : T} (h : c.lt t u = true) : c.lt u t = false := by
  cases hut : c.lt u t with
  | false => rfl
  | true =>
    have := c.lt_trans t u t h hut
    rw [c.lt_irrefl] at this
    cases this

theorem keyLt_eq_false_iff {a b : T × Str} (ha : c.isNan a.1 = false) (hb : c.isNan b.1 = false) :
    c.keyLt b a = false ↔ c.lt a.1 b.1 = true ∨ a.1 = b.1 ∧ strLe a.2 b.2 = true := by
  unfold Clock.keyLt
  have heq := c.eq_iff b.1 a.1 hb ha
  by_cases h : b.1 = a.1
  · rw [if_pos (heq.mpr h), Bool.not_eq_false', h, c.lt_irrefl]
    simp
  · rw [if_neg fun he => h (heq.mp he)]
    rcases c.lt_total a.1 b.1 ha hb with hlt | hsame | hgt
    · exact iff_of_true (lt_asymm c hlt) (Or.inl hlt)
    · exact absurd hsame.symm h
    · refine iff_of_false (by simp [hgt]) ?_
      rintro (hlt | ⟨hsame, -⟩)
      · rw [lt_asymm c hlt] at hgt
        cases hgt
      · exact h hsame.symm

instance : Std.Total (KeyLe c) where
  total a b := by
    unfold KeyLe
    cases ha : c.isNan a.1 with
    | true => exact Or.inr (Or.inl rfl)
    | false =>
      cases hb : c.isNan b.1 with
      | true => exact Or.inl (Or.inl rfl)
      | false =>
        rw [keyLt_eq_false_iff c ha hb, keyLt_eq_false_iff c hb ha]
        rcases c.lt_total a.1 b.1 ha hb with hlt | hsame | hgt
        · exact Or.inl (Or.inr ⟨rfl, Or.inl hlt⟩)
        · rcases strLe_total a.2 b.2 with hle | hle
          · exact Or.inl (Or.inr ⟨rfl, Or.inr ⟨hsame, hle⟩⟩)
          · exact Or.inr (Or.inr ⟨rfl, Or.inr ⟨hsame.symm, hle⟩⟩)
        · exact Or.inr (Or.inr ⟨rfl, Or.inl hgt⟩)

instance : IsTrans (T × Str) (KeyLe c) where
  trans a b d hab hbd := by
    unfold KeyLe at hab hbd ⊢
    rcases hbd with hd | ⟨hb, hbd⟩
    · exact Or.inl hd
    rcases hab with hnan | ⟨ha, hab⟩
    · rw [hb] at hnan
      cases hnan
    cases hd : c.isNan d.1 with
    | true => exact Or.inl rfl
    | false =>
      refine Or.inr ⟨ha, ?_⟩
      rw [keyLt_eq_false_iff c ha hb] at hab
      rw [keyLt_eq_false_iff c hb hd] at hbd
      rw [keyLt_eq_false_iff c ha hd]
      rcases hab with hab | ⟨hab, hle⟩
      · rcases hbd with hbd | ⟨hbd, -⟩
        · exact Or.inl (c.lt_trans _ _ _ hab hbd)
        · exact Or.inl (hbd ▸ hab)
      · rcases hbd with hbd | ⟨hbd, hle'⟩
        · exact Or.inl (hab ▸ hbd)
        · exact Or.inr ⟨hab.trans hbd, strLe_trans hle hle'⟩

/-- No time of creation is `NaN`. -/
def Dated (rows : List (Job T A)) : Prop :=
  ∀ row ∈ rows, c.isNan row.createdAt = false

variable {c} {rows rows' : List (Job T A)}

theorem keyLe_iff {a b : T × Str} (ha : c.isNan a.1 = false) (hb : c.isNan b.1 = false) :
    KeyLe c a b ↔ c.keyLt b a = false := by
  unfold KeyLe
  rw [ha, hb]
  simp

theorem sorted_map {f : Job T A → Job T B} (hf : ∀ row, (f row).key = row.key)
    (rows : List (Job T A)) : c.sorted (rows.map f) = (c.sorted rows).map f := by
  refine (List.map_insertionSort _ _ f rows fun a _ b _ => ?_).symm
  rw [hf, hf]

theorem pairwise_sorted (h : Dated c rows) :
    (c.sorted rows).Pairwise fun a b => KeyLe c a.key b.key := by
  have hsort : c.sorted rows = rows.insertionSort fun a b => KeyLe c a.key b.key := by
    have := List.map_insertionSort (fun a b : Job T A => c.keyLt b.key a.key = false)
      (fun a b => KeyLe c a.key b.key) id rows fun a ha b hb => by
        exact (keyLe_iff (h a ha) (h b hb)).symm
    rwa [List.map_id, List.map_id] at this
  rw [hsort]
  exact List.pairwise_insertionSort _ _

theorem sorted_eq_of_perm (hdated : Dated c rows) (hdistinct : Distinct rows)
    (h : rows.Perm rows') : c.sorted rows = c.sorted rows' := by
  have hdated' : Dated c rows' := fun row hrow => hdated row (h.mem_iff.mpr hrow)
  refine List.Perm.eq_of_pairwise ?_
    (pairwise_sorted hdated) (pairwise_sorted hdated')
    (((perm_sorted c rows).trans h).trans (perm_sorted c rows').symm)
  intro a b ha hb hab hba
  have ha := (perm_sorted c rows).mem_iff.mp ha
  have hb := h.mem_iff.mpr ((perm_sorted c rows').mem_iff.mp hb)
  rw [keyLe_iff (hdated a ha) (hdated b hb), keyLt_eq_false_iff c (hdated a ha) (hdated b hb)] at hab
  rw [keyLe_iff (hdated b hb) (hdated a ha), keyLt_eq_false_iff c (hdated b hb) (hdated a ha)] at hba
  -- neither is before the other, so they have the same job id
  have hid : a.jobId = b.jobId := by
    rcases hab with hab | ⟨hsame, hle⟩
    · rcases hba with hba | ⟨hsame, -⟩
      · rw [lt_asymm c hab] at hba
        cases hba
      · rw [hsame, c.lt_irrefl] at hab
        cases hab
    · rcases hba with hba | ⟨-, hle'⟩
      · rw [hsame, c.lt_irrefl] at hba
        cases hba
      · exact strLe_antisymm hle hle'
  have hfa := (findJob_eq_some_iff hdistinct).mpr ⟨ha, hid⟩
  have hfb := (findJob_eq_some_iff hdistinct).mpr ⟨hb, rfl⟩
  exact Option.some.inj (hfa.symm.trans hfb)

end Adaad.JobQueue

/-!
## The life of a job

What the queue is for: a job is enqueued, handed to a worker under a lease, and comes back when the
worker is done or the lease has run out.  `JobStep old new` says what may become of a job in one
step, `Moves m m'` that at most one job of a queue takes such a step, and `JobOk` what holds of a
job at any time.

The state and the lease are tied together by `JobOk`, which every step keeps (`JobStep.ok`).  A
lease counts as an attempt, so the attempts bound the leases (`leases_add_attempts`).
-/

namespace Adaad.JobQueue

open Py

variable {T : Type}

/-- No worker has the job. -/
structure Idle (row : Job T Unit) : Prop where
  owner : row.leaseOwner = []
  expires : row.leaseExpiresAt = none

/-- What a step may make of a job, or of none. -/
inductive JobStep : Option (Job T Unit) → Job T Unit → Prop
  | enqueue {new : Job T Unit} (after : new.state = .queued) (attempts : new.attemptCount = 0)
      (max : 1 ≤ new.maxAttempts) (idle : Idle new) : JobStep none new
  | lease {old new : Job T Unit} (before : old.state = .queued) (after : new.state = .leased)
      (attempts : new.attemptCount = old.attemptCount + 1)
      (max : new.maxAttempts = old.maxAttempts) (expires : new.leaseExpiresAt.isSome = true) :
      JobStep (some old) new
  | hold {old new : Job T Unit} (before : old.state.held = true) (after : new.state.held = true)
      (kept : new.state = .leased → old.state = .leased)
      (attempts : new.attemptCount = old.attemptCount)
      (max : new.maxAttempts = old.maxAttempts)
      (expires : old.leaseExpiresAt.isSome = true → new.leaseExpiresAt.isSome = true) :
      JobStep (some old) new
  | release {old new : Job T Unit} (before : old.state.held = true)
      (after : new.state.held = false)
      (requeued : new.state = .queued → old.attemptCount < old.maxAttempts)
      (attempts : new.attemptCount = old.attemptCount)
      (max : new.maxAttempts = old.maxAttempts) (idle : Idle new) : JobStep (some old) new
  | retry {old new : Job T Unit} (before : old.state = .failed ∨ old.state = .quarantined)
      (after : new.state = .queued) (left : old.attemptCount < old.maxAttempts)
      (attempts : new.attemptCount = old.attemptCount)
      (max : new.maxAttempts = old.maxAttempts) (idle : Idle new) : JobStep (some old) new

/-- What holds of a job at any time. -/
structure JobOk (row : Job T Unit) : Prop where
  nonneg : 0 ≤ row.attemptCount
  attempts : row.attemptCount ≤ row.maxAttempts
  queued : row.state = .queued → row.attemptCount < row.maxAttempts
  expires : row.leaseExpiresAt.isSome = true ↔ row.state = .leased ∨ row.state = .running
  owner : ¬(row.state = .leased ∨ row.state = .running) → row.leaseOwner = []

theorem held_iff {s : JobState} : s.held = true ↔ s = .leased ∨ s = .running := by
  cases s <;> decide

theorem JobOk.of_idle {row : Job T Unit} (hidle : Idle row) (hheld : row.state.held = false)
    (hnonneg : 0 ≤ row.attemptCount) (hattempts : row.attemptCount ≤ row.maxAttempts)
    (hqueued : row.state = .queued → row.attemptCount < row.maxAttempts) : JobOk row where
  nonneg := hnonneg
  attempts := hattempts
  queued := hqueued
  expires := by
    rw [hidle.expires, ← held_iff, hheld]
    rfl
  owner _ := hidle.owner

theorem JobOk.of_held {row : Job T Unit} (hheld : row.state.held = true)
    (hexpires : row.leaseExpiresAt.isSome = true) (hnonneg : 0 ≤ row.attemptCount)
    (hattempts : row.attemptCount ≤ row.maxAttempts) : JobOk row where
  nonneg := hnonneg
  attempts := hattempts
  queued h := by
    rw [h] at hheld
    cases hheld
  expires := iff_of_true hexpires (held_iff.mp hheld)
  owner h := absurd (held_iff.mp hheld) h

theorem JobStep.ok {old : Option (Job T Unit)} {new : Job T Unit} (h : JobStep old new)
    (hold : ∀ row, old = some row → JobOk row) : JobOk new := by
  cases h with
  | enqueue after attempts max idle =>
    have hheld : new.state.held = false := by rw [after]; rfl
    exact .of_idle idle hheld (by omega) (by omega) (by omega)
  | @lease old _ before after attempts max expires =>
    have hok := hold old rfl
    have hlt := hok.queued before
    have hnonneg := hok.nonneg
    have hheld : new.state.held = true := by rw [after]; rfl
    exact .of_held hheld expires (by omega) (by omega)
  | @hold old _ before after kept attempts max expires =>
    have hok := hold old rfl
    have hnonneg := hok.nonneg
    have hattempts := hok.attempts
    exact .of_held after (expires (hok.expires.mpr (held_iff.mp before))) (by omega) (by omega)
  | @release old _ before after requeued attempts max idle =>
    have hok := hold old rfl
    have hnonneg := hok.nonneg
    have hattempts := hok.attempts
    refine .of_idle idle after (by omega) (by omega) fun hqueued => ?_
    have := requeued hqueued
    omega
  | @retry old _ before after left attempts max idle =>
    have hok := hold old rfl
    have hnonneg := hok.nonneg
    have hheld : new.state.held = false := by rw [after]; rfl
    exact .of_idle idle hheld (by omega) (by omega) (by omega)

theorem JobStep.not_succeeded {old : Job T Unit} {new : Job T Unit}
    (h : JobStep (some old) new) : old.state ≠ .succeeded := by
  intro hold
  cases h with
  | lease before | retry before | hold before | release before =>
    rw [hold] at before
    simp [JobState.held] at before

/-! ### A queue of jobs -/

/-- The jobs of a queue by their ids. -/
abbrev Jobs (T : Type) := Str → Option (Job T Unit)

variable {m m' : Jobs T} {jobId : Str}

/-- At most one job takes a step. -/
inductive Moves (m m' : Jobs T) : Prop where
  | quiet (h : m' = m)
  | job (old : Option (Job T Unit)) (new : Job T Unit) (hold : m new.jobId = old)
      (hstep : JobStep old new) (hnew : m' = Function.update m new.jobId (some new))

def JobsOk (m : Jobs T) : Prop :=
  ∀ jobId row, m jobId = some row → JobOk row

theorem Moves.ok (h : Moves m m') (hm : JobsOk m) : JobsOk m' := by
  cases h with
  | quiet h => exact h ▸ hm
  | job old new hold hstep hnew =>
    intro jobId row hrow
    rw [hnew] at hrow
    by_cases hid : jobId = new.jobId
    · rw [hid, Function.update_self] at hrow
      rw [← Option.some.inj hrow]
      exact hstep.ok fun r hr => hm new.jobId r (hold.trans hr)
    · rw [Function.update_of_ne hid] at hrow
      exact hm jobId row hrow

def Jobs.state (m : Jobs T) (jobId : Str) : Option JobState :=
  (m jobId).map Job.state

/-- The attempts of a job; of one that is not there, none. -/
def Jobs.attempts (m : Jobs T) (jobId : Str) : Int :=
  ((m jobId).map Job.attemptCount).getD 0

theorem Moves.succeeded (h : Moves m m') (hm : m.state jobId = some .succeeded) :
    m'.state jobId = some .succeeded := by
  cases h with
  | quiet h => exact h ▸ hm
  | job old new hold hstep hnew =>
    by_cases hid : jobId = new.jobId
    · obtain ⟨row, hrow, hstate⟩ := Option.map_eq_some_iff.mp hm
      rw [← hold, ← hid, hrow] at hstep
      exact absurd hstate hstep.not_succeeded
    · unfold Jobs.state
      rw [hnew, Function.update_of_ne hid]
      exact hm

/-- The job is leased in the second queue and was not in the first. -/
def Leases (jobId : Str) (m m' : Jobs T) : Prop :=
  m.state jobId ≠ some .leased ∧ m'.state jobId = some .leased

instance (jobId : Str) (m m' : Jobs T) : Decidable (Leases jobId m m') :=
  inferInstanceAs (Decidable (_ ∧ _))

/-- How often the job is leased along the queues. -/
def leases (jobId : Str) : List (Jobs T) → Int
  | m :: m' :: ms => (if Leases jobId m m' then 1 else 0) + leases jobId (m' :: ms)
  | _ => 0

theorem Moves.attempts (h : Moves m m') (jobId : Str) :
    m'.attempts jobId = m.attempts jobId + if Leases jobId m m' then 1 else 0 := by
  cases h with
  | quiet h =>
    have hno : ¬Leases jobId m m' := by
      rintro ⟨hne, heq⟩
      exact hne (h ▸ heq)
    rw [if_neg hno, h, add_zero]
  | job old new hold hstep hnew =>
    by_cases hid : jobId = new.jobId
    · have hafter : m' jobId = some new := by rw [hnew, hid, Function.update_self]
      rw [← hid] at hold
      simp only [Leases, Jobs.attempts, Jobs.state, hafter, hold, Option.map_some]
      cases hstep with
      | enqueue after attempts => simp [after, attempts]
      | lease before after attempts => simp [before, after, attempts]
      | @hold old _ before after kept attempts =>
        have : ¬(old.state ≠ .leased ∧ new.state = .leased) := fun h => h.1 (kept h.2)
        simp [attempts, this]
      | release before after requeued attempts =>
        have : new.state ≠ .leased := by
          intro hleased
          rw [hleased] at after
          cases after
        simp [attempts, this]
      | retry before after left attempts => simp [after, attempts]
    · have hsame : m' jobId = m jobId := by rw [hnew, Function.update_of_ne hid]
      have hno : ¬Leases jobId m m' := by
        rintro ⟨hne, heq⟩
        unfold Jobs.state at hne heq
        exact hne (hsame ▸ heq)
      unfold Jobs.attempts
      rw [if_neg hno, hsame, add_zero]

theorem leases_add_attempts {ms : List (Jobs T)} (h : List.IsChain Moves (m :: ms))
    (jobId : Str) :
    leases jobId (m :: ms) + m.attempts jobId = (ms.getLastD m).attempts jobId := by
  induction ms generalizing m with
  | nil => exact zero_add _
  | cons m' ms ih =>
    obtain ⟨hfirst, hrest⟩ := List.isChain_cons_cons.mp h
    rw [List.getLastD_cons, ← ih hrest, hfirst.attempts jobId]
    show (if Leases jobId m m' then 1 else 0) + leases jobId (m' :: ms) + _ = _
    ring

end Adaad.JobQueue
