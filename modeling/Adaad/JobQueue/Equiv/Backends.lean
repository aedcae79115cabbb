import Adaad.JobQueue.Equiv.Calls

/-!
# The two backends

`Same c s t`: the JSON file of `s` and the table of `t` have the same rows, in whatever order, those
of the file being what the columns of the table stand for.  Both backends take a call from such
stores to such stores and return the same, if what is put into them `Fit`s: plain payloads, times
that are not `NaN`, and attempts that are `int`s of SQLite.
-/

namespace Adaad.JobQueue

open Py Program

variable {P : Platform} {T α : Type} (c : Clock T) (transitions : Option Backend)

def jsonQueue : Config T := ⟨c, .json, transitions⟩

def sqliteQueue : Config T := ⟨c, .sqlite, transitions⟩

/-- A row that both backends take. -/
structure Fit (row : Job T P.Obj) : Prop where
  payload : row.payload.IsJson
  ok : JobOk row.status
  max : row.maxAttempts < 2 ^ 63
  created : c.isNan row.createdAt = false
  updated : c.isNan row.updatedAt = false
  times : NanFree c row

/-- A row that a JSON file has. -/
structure Kept (row : Job T P.Obj) : Prop extends Fit c row where
  sorted : sortKeys P row.payload = some row.payload
  chars : Encodable (row.chars P)

def tableOf (row : Job T P.Obj) : Job T Str :=
  { row with payload := dumps P .compact row.payload }

theorem key_tableOf (row : Job T P.Obj) : (tableOf row).key = row.key := rfl

/-- The file and the table have the same rows. -/
structure Same (s t : World P T) : Prop where
  perm : t.table.Perm (s.file.map tableOf)
  distinct : Distinct s.file
  kept : ∀ row ∈ s.file, Kept c row
  transitionFile : s.transitionFile = t.transitionFile
  transitionTable : s.transitionTable = t.transitionTable

variable {c} {transitions} {s t : World P T} {row : Job T P.Obj}

theorem same_empty : Same c ({} : World P T) {} where
  perm := List.Perm.refl _
  distinct := List.nodup_nil
  kept _ h := absurd h List.not_mem_nil
  transitionFile := rfl
  transitionTable := rfl

/-! ### Reading -/

theorem loadRow_tableOf (h : Kept c row) : loadRow P (tableOf row) = .ok row := by
  unfold loadRow tableOf
  rw [loads_dumps, image_eq_self P h.payload.1 h.payload.2]

theorem Same.dated (h : Same c s t) : Dated c s.file := fun row hrow => (h.kept row hrow).created

theorem Same.jobs (h : Same c s t) (transitions : Option Backend) :
    (jsonQueue c transitions).jobs s = .ok (c.sorted s.file) ∧
      (sqliteQueue c transitions).jobs t = .ok (c.sorted s.file) := by
  refine ⟨rfl, ?_⟩
  show (c.sorted t.table).mapM (loadRow P) = _
  have hdistinct : Distinct t.table := by
    have : Distinct (s.file.map tableOf) := by
      unfold Distinct
      rw [List.map_map]
      exact h.distinct
    exact this.perm h.perm.symm
  have hdated : Dated c t.table := by
    intro r hr
    obtain ⟨row, hrow, rfl⟩ := List.mem_map.mp (h.perm.mem_iff.mp hr)
    exact (h.kept row hrow).created
  rw [sorted_eq_of_perm hdated hdistinct h.perm, sorted_map key_tableOf]
  refine mapM_eq_ok.mpr ?_
  rw [List.forall₂_map_left_iff]
  refine List.forall₂_same.mpr fun row hrow => loadRow_tableOf (h.kept row ?_)
  exact (perm_sorted c s.file).mem_iff.mp hrow

theorem agrees_listJobs : Agrees (Same c) (fun rows => ∀ row ∈ rows, Kept c row)
    (listJobs (P := P) (jsonQueue c transitions)) (listJobs (sqliteQueue c transitions)) := by
  intro s t h
  obtain ⟨hs, ht⟩ := h.jobs transitions
  unfold listJobs
  rw [run_read, run_read, hs, ht]
  refine ⟨rfl, h, fun rows hrows row hrow => h.kept row ?_⟩
  rw [← Except.ok.inj hrows] at hrow
  exact (perm_sorted c s.file).mem_iff.mp hrow

theorem agrees_getJob (jobId : Str) : Agrees (Same c) (fun found => ∀ row ∈ found, Kept c row)
    (getJob (P := P) (jsonQueue c transitions) jobId) (getJob (sqliteQueue c transitions) jobId) := by
  refine agrees_listJobs.bind fun rows hrows => agrees_pure fun row hrow => ?_
  exact hrows row (mem_of_findJob hrow)

/-! ### Writing -/

/-- The row with its payload as it is read back. -/
def Job.stored (row : Job T P.Obj) : Job T P.Obj :=
  { row with payload := (sortKeys P row.payload).getD row.payload }

theorem key_stored (row : Job T P.Obj) : row.stored.key = row.key := rfl

theorem jobId_stored (row : Job T P.Obj) : row.stored.jobId = row.jobId := rfl

theorem Fit.sortKeys_eq (h : Fit c row) : sortKeys P row.payload = some row.stored.payload := by
  obtain ⟨w, hw⟩ := exists_sortKeys P h.payload.1
  unfold Job.stored
  rw [hw]
  rfl

theorem Fit.fit_stored (h : Fit c row) : Fit c row.stored where
  payload := ⟨(plain_sortKeys_iff P h.sortKeys_eq).mpr h.payload.1,
    wf_sortKeys P h.sortKeys_eq h.payload.2⟩
  ok := h.ok
  max := h.max
  created := h.created
  updated := h.updated
  times := h.times

theorem Fit.storedRow_eq (h : Fit c row) : storedRow P row = .ok row.stored := by
  have hjson := h.fit_stored.payload
  unfold storedRow
  rw [h.sortKeys_eq]
  dsimp only
  rw [image_eq_self P hjson.1 hjson.2]
  rfl

theorem Kept.stored_eq (h : Kept c row) : row.stored = row := by
  unfold Job.stored
  rw [h.sorted]
  rfl

theorem Fit.encodable_iff (h : Fit c row) :
    Encodable row.stored.payload.chars ↔ Encodable row.payload.chars := by
  unfold Py.Encodable
  simp only [mem_chars_sortKeys P h.sortKeys_eq]

theorem Fit.kept_stored (h : Fit c row) (hchars : Encodable (row.chars P)) : Kept c row.stored where
  toFit := h.fit_stored
  sorted := sortKeys_sortKeys P h.sortKeys_eq h.payload.1
  chars := by
    unfold Job.chars at hchars ⊢
    simp only [encodable_append_iff] at hchars ⊢
    exact ⟨hchars.1, h.encodable_iff.mpr hchars.2.1, hchars.2.2⟩

theorem saveJson_eq {rows : List (Job T P.Obj)} (h : ∀ row ∈ rows, Fit c row) :
    saveJson P rows = if ∀ row ∈ rows, (encode (row.chars P)).isSome = true
      then .ok (rows.map Job.stored) else .error .unicodeEncodeError := by
  have hrows : rows.mapM (storedRow P) = .ok (rows.map Job.stored) := by
    refine mapM_eq_ok.mpr ?_
    rw [List.forall₂_map_right_iff]
    exact List.forall₂_same.mpr fun row hrow => (h row hrow).storedRow_eq
  unfold saveJson
  rw [hrows]
  show (if _ then _ else _) = _
  simp only [List.all_eq_true]
  rfl

theorem Fit.bindable_iff (h : Fit c row) :
    Bindable row (dumps P .compact row.stored.payload) ↔ Encodable (row.chars P) := by
  have hnonneg : 0 ≤ row.attemptCount := h.ok.nonneg
  have hattempts : row.attemptCount ≤ row.maxAttempts := h.ok.attempts
  have hmax := h.max
  have hpayload : Encodable (dumps P .compact row.stored.payload) ↔
      Encodable row.payload.chars := by
    rw [encodable_dumps_iff, h.encodable_iff]
  unfold Job.chars
  simp only [encodable_append_iff]
  constructor
  · intro hb
    exact ⟨isSome_encode_iff.mp hb.jobId, hpayload.mp (isSome_encode_iff.mp hb.payload),
      isSome_encode_iff.mp hb.dedupeKey, isSome_encode_iff.mp hb.leaseOwner,
      isSome_encode_iff.mp hb.leaseId, isSome_encode_iff.mp hb.error⟩
  · rintro ⟨hid, hp, hkey, howner, hlease, herror⟩
    exact ⟨isSome_encode_iff.mpr hid, isSome_encode_iff.mpr (hpayload.mpr hp),
      isSome_encode_iff.mpr hkey, isSome_encode_iff.mpr howner, by omega, by omega,
      isSome_encode_iff.mpr hlease, isSome_encode_iff.mpr herror⟩

theorem Fit.dumpsSorted_eq (h : Fit c row) :
    dumpsSorted P .compact row.payload = some (dumps P .compact row.stored.payload) := by
  rw [dumpsSorted, h.sortKeys_eq, Option.map_some]

theorem bindText_cases (s : Str) :
    bindText s = .ok s ∨ bindText s = .error (.raised .unicodeEncodeError) := by
  unfold bindText
  split
  · exact Or.inl rfl
  · exact Or.inr rfl

theorem Fit.sqliteRow_eq_error (h : Fit c row) (hno : ∀ r, sqliteRow P c row ≠ .ok r) :
    sqliteRow P c row = .error (.raised .unicodeEncodeError) := by
  have hnonneg : 0 ≤ row.attemptCount := h.ok.nonneg
  have hattempts : row.attemptCount ≤ row.maxAttempts := h.ok.attempts
  have hmax := h.max
  have hcount : bindInt row.attemptCount = .ok row.attemptCount :=
    bindInt_eq_ok.mpr ⟨rfl, by omega, by omega⟩
  have hlimit : bindInt row.maxAttempts = .ok row.maxAttempts :=
    bindInt_eq_ok.mpr ⟨rfl, by omega, by omega⟩
  unfold sqliteRow at hno ⊢
  rw [h.dumpsSorted_eq, hcount, hlimit, h.created, h.updated] at hno ⊢
  dsimp only at hno ⊢
  rcases bindText_cases row.jobId with h₁ | h₁ <;> rw [h₁] at hno ⊢
  case inr => rfl
  rcases bindText_cases (dumps P .compact row.stored.payload) with h₂ | h₂ <;> rw [h₂] at hno ⊢
  case inr => rfl
  rcases bindText_cases row.dedupeKey with h₃ | h₃ <;> rw [h₃] at hno ⊢
  case inr => rfl
  rcases bindText_cases row.leaseOwner with h₄ | h₄ <;> rw [h₄] at hno ⊢
  case inr => rfl
  rcases bindText_cases row.leaseId with h₅ | h₅ <;> rw [h₅] at hno ⊢
  case inr => rfl
  rcases bindText_cases row.error with h₆ | h₆ <;> rw [h₆] at hno ⊢
  case inr => rfl
  exact absurd rfl (hno _)

theorem Fit.sqliteRow_eq_ok (h : Fit c row) (hchars : Encodable (row.chars P)) :
    sqliteRow P c row = .ok (tableOf row.stored) := by
  refine JobQueue.sqliteRow_eq_ok.mpr ⟨_, h.dumpsSorted_eq, h.bindable_iff.mpr hchars, h.created,
    h.updated, ?_⟩
  rw [tableRow_eq h.times]
  rfl

theorem Same.upsert (h : Same c s t) (hfit : Fit c row) (hchars : Encodable (row.chars P)) :
    Same c { s with file := c.sorted (upsertInto row.stored (loadJson P c s)) }
      { t with table := upsertInto (tableOf row.stored) t.table } := by
  have hloaded : (loadJson P c s).Perm s.file := perm_sorted c s.file
  have hdistinct : Distinct (loadJson P c s) := h.distinct.perm hloaded.symm
  have htable : Distinct t.table := by
    have : Distinct (s.file.map tableOf) := by
      unfold Distinct
      rw [List.map_map]
      exact h.distinct
    exact this.perm h.perm.symm
  refine ⟨?_, (hdistinct.upsertInto _).perm (perm_sorted c _).symm, fun r hr => ?_,
    h.transitionFile, h.transitionTable⟩
  · have hfile := (perm_sorted c (upsertInto row.stored (loadJson P c s))).trans
      ((perm_upsertInto hdistinct row.stored).trans ((hloaded.filter _).cons row.stored))
    refine (perm_upsertInto htable _).trans (List.Perm.trans ?_ (hfile.map tableOf).symm)
    rw [List.map_cons]
    refine List.Perm.cons _ ((h.perm.filter _).trans ?_)
    rw [List.filter_map]
    exact List.Perm.refl _
  · rcases mem_upsertInto ((perm_sorted c _).mem_iff.mp hr) with rfl | hr
    · exact hfit.kept_stored hchars
    · exact h.kept r (hloaded.mem_iff.mp hr)

theorem agrees_upsertRow (old : Option (Job T P.Obj)) (hfit : Fit c row) :
    Agrees (Same c) (fun _ => True) (upsertRow (jsonQueue c transitions) old row)
      (upsertRow (sqliteQueue c transitions) old row) := by
  intro s t h
  have hrows : ∀ r ∈ c.sorted (upsertInto row (loadJson P c s)), r = row ∨ Kept c r := by
    intro r hr
    refine (mem_upsertInto ((perm_sorted c _).mem_iff.mp hr)).imp_right fun hr => h.kept r ?_
    exact (perm_sorted c s.file).mem_iff.mp hr
  have hfits : ∀ r ∈ c.sorted (upsertInto row (loadJson P c s)), Fit c r := by
    intro r hr
    rcases hrows r hr with rfl | hr
    · exact hfit
    · exact hr.toFit
  rw [run_upsertRow_of_json rfl, run_upsertRow_of_sqlite rfl]
  show (saveUpsert c row (loadJson P c s) s).1 = (executeUpsert c row t).1 ∧
    Same c (saveUpsert c row (loadJson P c s) s).2 (executeUpsert c row t).2 ∧ _
  unfold saveUpsert executeUpsert
  rw [saveJson_eq hfits]
  by_cases hchars : Encodable (row.chars P)
  · have hall : ∀ r ∈ c.sorted (upsertInto row (loadJson P c s)),
        (encode (r.chars P)).isSome = true := by
      intro r hr
      rcases hrows r hr with rfl | hr
      · exact isSome_encode_iff.mpr hchars
      · exact isSome_encode_iff.mpr hr.chars
    have hstored : (c.sorted (upsertInto row (loadJson P c s))).map Job.stored =
        c.sorted (upsertInto row.stored (loadJson P c s)) := by
      have hkept : (loadJson P c s).map Job.stored = loadJson P c s := by
        refine (List.map_congr_left fun r hr => ?_).trans (List.map_id _)
        exact (h.kept r ((perm_sorted c s.file).mem_iff.mp hr)).stored_eq
      rw [← sorted_map key_stored, upsertInto_map jobId_stored, hkept]
    rw [if_pos hall, hstored, hfit.sqliteRow_eq_ok hchars]
    exact ⟨rfl, h.upsert hfit hchars, fun _ _ => trivial⟩
  · have hnot : ¬∀ r ∈ c.sorted (upsertInto row (loadJson P c s)),
        (encode (r.chars P)).isSome = true := by
      intro hall
      refine hchars (isSome_encode_iff.mp (hall row ?_))
      exact (perm_sorted c _).mem_iff.mpr (mem_upsertInto_self row _)
    have hrefused := hfit.sqliteRow_eq_error fun r hr => by
      obtain ⟨u, hu, hb, -⟩ := JobQueue.sqliteRow_eq_ok.mp hr
      rw [hfit.dumpsSorted_eq] at hu
      rw [← Option.some.inj hu] at hb
      exact hchars (hfit.bindable_iff.mp hb)
    rw [if_neg hnot, hrefused]
    exact ⟨rfl, h, fun _ _ => trivial⟩

theorem agrees_appendTransition (backend : Backend) (r : Transition T) :
    Agrees (Same (P := P) c) (fun _ => True) (appendTransition c backend r)
      (appendTransition c backend r) := by
  intro s t h
  cases backend with
  | sqlite =>
    unfold appendTransition
    rw [run_atomic, run_atomic]
    split
    · exact ⟨rfl, h, fun _ _ => trivial⟩
    split
    · exact ⟨rfl, h, fun _ _ => trivial⟩
    · refine ⟨rfl, ⟨h.perm, h.distinct, h.kept, h.transitionFile, ?_⟩, fun _ _ => trivial⟩
      rw [h.transitionTable]
  | json =>
    unfold appendTransition
    dsimp only
    rw [run_bind, run_bind, run_read, run_read]
    dsimp only
    rw [run_atomic, run_atomic, h.transitionFile]
    split
    · exact ⟨rfl, ⟨h.perm, h.distinct, h.kept, rfl, h.transitionTable⟩, fun _ _ => trivial⟩
    · exact ⟨rfl, h, fun _ _ => trivial⟩

theorem agrees_recordTransition (row : Job T P.Obj) (fromState toState reason workerId : Str)
    (ts : T) (metadata : List (Str × MetaValue T)) :
    Agrees (Same c) (fun _ => True)
      (recordTransition (jsonQueue c transitions) row fromState toState reason workerId ts metadata)
      (recordTransition (sqliteQueue c transitions) row fromState toState reason workerId ts
        metadata) := by
  cases transitions with
  | none => exact agrees_pure trivial
  | some backend =>
    unfold recordTransition jsonQueue sqliteQueue
    dsimp only
    split
    · exact agrees_pure trivial
    · exact agrees_appendTransition _ _

theorem agrees_move {old : Option (Job T P.Obj)} {fromState toState reason workerId : Str} {ts : T}
    {metadata : List (Str × MetaValue T)} {Q : α → Prop} {p p' : Program Fault (World P T) α}
    (hfit : Fit c row) (hp : Agrees (Same c) Q p p') :
    Agrees (Same c) Q
      (do
        upsertRow (jsonQueue c transitions) old row
        recordTransition (jsonQueue c transitions) row fromState toState reason workerId ts metadata
        p)
      (do
        upsertRow (sqliteQueue c transitions) old row
        recordTransition (sqliteQueue c transitions) row fromState toState reason workerId ts
          metadata
        p') :=
  (agrees_upsertRow old hfit).bind fun _ _ =>
    (agrees_recordTransition row fromState toState reason workerId ts metadata).bind fun _ _ => hp

/-! ### The calls -/

theorem Kept.fit {old new : Job T P.Obj} (h : Kept c old)
    (hstep : JobStep (some old.status) new.status) (hpayload : new.payload = old.payload)
    (hmax : new.maxAttempts = old.maxAttempts) (hcreated : new.createdAt = old.createdAt)
    (hupdated : c.isNan new.updatedAt = false) (htimes : NanFree c new) : Fit c new where
  payload := hpayload ▸ h.payload
  ok := hstep.ok fun _ hr => Option.some.inj hr ▸ h.ok
  max := hmax ▸ h.max
  created := hcreated ▸ h.created
  updated := hupdated
  times := htimes

variable {ts : T}

theorem agrees_enqueue (hts : c.isNan ts = false) {payload : Dict P.Float}
    (hpayload : (Value.dict payload.items).Plain) (dedupeKey : Str) {maxAttempts : Int}
    (hmax : maxAttempts < 2 ^ 63) :
    Agrees (Same c) (fun _ => True)
      (enqueue (jsonQueue c transitions) payload dedupeKey maxAttempts ts)
      (enqueue (sqliteQueue c transitions) payload dedupeKey maxAttempts ts) := by
  refine (agrees_ofExcept (Q := fun _ => True) fun _ _ => trivial).bind fun jobId _ => ?_
  refine (agrees_getJob jobId).bind fun found hfound => ?_
  cases found with
  | some existing => exact agrees_pure trivial
  | none =>
    refine agrees_move ?_ (agrees_pure trivial)
    have hstep : JobStep (T := T) none
        (newRow (P := P) jobId (.dict payload.items) dedupeKey maxAttempts ts).status :=
      .enqueue rfl rfl (le_max_left 1 maxAttempts) ⟨rfl, rfl⟩
    have hlimit : max 1 maxAttempts < 2 ^ 63 := max_lt (by decide) hmax
    have hok := hstep.ok fun _ h => by cases h
    exact ⟨⟨hpayload, payload.wf⟩, hok, hlimit, hts, hts,
      nanFree_of_idle (q := jsonQueue c none) rfl rfl⟩

theorem agrees_recoverRows (hts : c.isNan ts = false) {rows : List (Job T P.Obj)}
    (hrows : ∀ row ∈ rows, Kept c row) :
    Agrees (Same c) (fun _ => True) (recoverRows (jsonQueue c transitions) ts rows)
      (recoverRows (sqliteQueue c transitions) ts rows) := by
  induction rows with
  | nil => exact agrees_pure trivial
  | cons row rows ih =>
    have h := List.forall_mem_cons.mp hrows
    unfold recoverRows
    by_cases hstale : stale (jsonQueue c transitions) ts row = true
    · rw [if_pos hstale, if_pos (show stale (sqliteQueue c transitions) ts row = true from hstale)]
      refine agrees_move ?_ ((ih h.2).bind fun _ _ => agrees_pure trivial)
      exact h.1.fit (jobStep_reclaimed hstale) rfl rfl rfl hts
        (nanFree_of_idle (q := jsonQueue c none) rfl rfl)
    · rw [if_neg hstale, if_neg (show ¬stale (sqliteQueue c transitions) ts row = true from hstale)]
      exact ih h.2

theorem agrees_recoverOrphans (hts : c.isNan ts = false) :
    Agrees (Same (P := P) c) (fun _ => True) (recoverOrphans (jsonQueue c transitions) ts)
      (recoverOrphans (sqliteQueue c transitions) ts) :=
  agrees_listJobs.bind fun _ hrows => agrees_recoverRows hts hrows

theorem agrees_retry (hts : c.isNan ts = false) (jobId : Str) :
    Agrees (Same (P := P) c) (fun _ => True) (retry (jsonQueue c transitions) jobId ts)
      (retry (sqliteQueue c transitions) jobId ts) := by
  refine (agrees_getJob jobId).bind fun found hfound => ?_
  cases found with
  | none => exact agrees_pure trivial
  | some row =>
    dsimp only
    split
    · exact agrees_pure trivial
    · next hstate =>
      split
      · exact agrees_pure trivial
      · next hleft =>
        refine agrees_move ?_ (agrees_pure trivial)
        refine (hfound row rfl).fit (jobStep_retried hstate hleft ts) rfl rfl rfl hts ?_
        exact nanFree_of_idle (q := jsonQueue c none) rfl rfl

theorem agrees_expiresAt (ts : T) :
    Agrees (Same (P := P) c) (fun expires => c.expires ts = some expires)
      (.ofExcept ((jsonQueue c transitions).clock.expiresAt ts))
      (.ofExcept ((sqliteQueue c transitions).clock.expiresAt ts)) :=
  agrees_ofExcept fun _ h => expiresAt_eq_ok.mp h

theorem agrees_leaseNext (hts : c.isNan ts = false) (workerId : Str) :
    Agrees (Same (P := P) c) (fun _ => True) (leaseNext (jsonQueue c transitions) workerId ts)
      (leaseNext (sqliteQueue c transitions) workerId ts) := by
  refine (agrees_recoverOrphans hts).bind fun _ _ => agrees_listJobs.bind fun rows hrows => ?_
  cases hfind : rows.find? fun row => row.state = .queued with
  | none => exact agrees_pure trivial
  | some row =>
    have hqueued := List.find?_some hfind
    rw [decide_eq_true_eq] at hqueued
    refine (agrees_expiresAt ts).bind fun expires hexpires => ?_
    refine agrees_move ?_ (agrees_pure trivial)
    have hkept := hrows row (List.mem_of_find?_eq_some hfind)
    exact hkept.fit (jobStep_leased hqueued _ _ ts expires) rfl rfl rfl hts
      (nanFree_of_lease (q := jsonQueue c none) hexpires rfl rfl hts)

theorem agrees_markRunning (hts : c.isNan ts = false) (jobId workerId : Str) :
    Agrees (Same (P := P) c) (fun _ => True)
      (markRunning (jsonQueue c transitions) jobId workerId ts)
      (markRunning (sqliteQueue c transitions) jobId workerId ts) := by
  refine (agrees_getJob jobId).bind fun found hfound => ?_
  cases found with
  | none => exact agrees_pure trivial
  | some row =>
    dsimp only
    split
    · exact agrees_pure trivial
    · next hstate =>
      rw [not_or, not_not] at hstate
      have hkept := hfound row rfl
      refine agrees_move ?_ (agrees_pure trivial)
      exact hkept.fit (jobStep_started hstate.1 ts) rfl rfl rfl hts hkept.times

theorem agrees_heartbeat (hts : c.isNan ts = false) (jobId workerId : Str) :
    Agrees (Same (P := P) c) (fun _ => True)
      (heartbeat (jsonQueue c transitions) jobId workerId ts)
      (heartbeat (sqliteQueue c transitions) jobId workerId ts) := by
  refine (agrees_getJob jobId).bind fun found hfound => ?_
  cases found with
  | none => exact agrees_pure trivial
  | some row =>
    dsimp only
    split
    · exact agrees_pure trivial
    · next hstate =>
      rw [not_or, Bool.not_eq_true', Bool.not_eq_false] at hstate
      refine (agrees_expiresAt ts).bind fun expires hexpires => ?_
      refine agrees_move ?_ (agrees_pure trivial)
      exact (hfound row rfl).fit (jobStep_beaten hstate.1 ts expires) rfl rfl rfl hts
        (nanFree_of_lease (q := jsonQueue c none) hexpires rfl rfl hts)

theorem agrees_complete (hts : c.isNan ts = false) (jobId state workerId error : Str) :
    Agrees (Same (P := P) c) (fun _ => True)
      (complete (jsonQueue c transitions) jobId state workerId error ts)
      (complete (sqliteQueue c transitions) jobId state workerId error ts) := by
  unfold complete
  cases hterminal : terminalState state with
  | none => exact agrees_ofExcept fun _ _ => trivial
  | some terminal =>
    refine (agrees_getJob jobId).bind fun found hfound => ?_
    cases found with
    | none => exact agrees_pure trivial
    | some row =>
      dsimp only
      split
      · exact agrees_pure trivial
      split
      · exact agrees_pure trivial
      · next hheld =>
        rw [Bool.not_eq_true', Bool.not_eq_false] at hheld
        split
        · exact agrees_pure trivial
        · refine agrees_move ?_ (agrees_pure trivial)
          exact (hfound row rfl).fit (jobStep_completed hterminal hheld error ts) rfl rfl rfl hts
            (nanFree_of_idle (q := jsonQueue c none) rfl rfl)

/-! ### Runs -/

/-- A call with a time that is a number, and when it enqueues with a payload that JSON has and
attempts that SQLite has. -/
def Call.Fits (c : Clock T) : Call P T → Prop
  | .enqueue payload _ maxAttempts ts =>
    c.isNan ts = false ∧ (Value.dict payload.items).Plain ∧ maxAttempts < 2 ^ 63
  | call => c.isNan call.ts = false

theorem agrees_call {call : Call P T} (h : call.Fits c) :
    Agrees (Same c) (fun _ => True) (call.program (jsonQueue c transitions))
      (call.program (sqliteQueue c transitions)) := by
  cases call with
  | enqueue payload dedupeKey maxAttempts ts =>
    exact (agrees_enqueue h.1 h.2.1 dedupeKey h.2.2).bind fun _ _ => agrees_pure trivial
  | recoverOrphans ts => exact (agrees_recoverOrphans h).bind fun _ _ => agrees_pure trivial
  | retry jobId ts => exact (agrees_retry h jobId).bind fun _ _ => agrees_pure trivial
  | leaseNext workerId ts => exact (agrees_leaseNext h workerId).bind fun _ _ => agrees_pure trivial
  | markRunning jobId workerId ts =>
    exact (agrees_markRunning h jobId workerId).bind fun _ _ => agrees_pure trivial
  | heartbeat jobId workerId ts =>
    exact (agrees_heartbeat h jobId workerId).bind fun _ _ => agrees_pure trivial
  | complete jobId state workerId error ts =>
    exact (agrees_complete h jobId state workerId error).bind fun _ _ => agrees_pure trivial

/-- What each call of a run returns or raises, and what `list_jobs` returns after it. -/
def observe (q : Config T) (s : World P T) :
    List (Call P T) → List (Except Fault (Reply P T) × Except Fault (List (Job T P.Obj)))
  | [] => []
  | call :: calls =>
    ((run (call.program q) s).1, q.jobs (callStep q s call)) ::
      observe q (callStep q s call) calls

theorem observe_of_same {s t : World P T} (h : Same c s t) {calls : List (Call P T)}
    (hcalls : ∀ call ∈ calls, call.Fits c) :
    observe (jsonQueue c transitions) s calls = observe (sqliteQueue c transitions) t calls := by
  induction calls generalizing s t with
  | nil => rfl
  | cons call calls ih =>
    have hall := List.forall_mem_cons.mp hcalls
    have hagrees : Agrees (Same c) (fun _ => True) (call.program (jsonQueue c transitions))
        (call.program (sqliteQueue c transitions)) := agrees_call hall.1
    obtain ⟨hreply, hsame, -⟩ := hagrees s t h
    obtain ⟨hs, ht⟩ := hsame.jobs transitions
    unfold observe callStep
    rw [hreply, hs, ht, ih hsame hall.2]

/-- The two backends cannot be told apart by calls that fit. -/
theorem backends_agree (c : Clock T) (transitions : Option Backend) (calls : List (Call P T))
    (hcalls : ∀ call ∈ calls, call.Fits c) :
    observe (jsonQueue c transitions) {} calls = observe (sqliteQueue c transitions) {} calls :=
  observe_of_same same_empty hcalls

/-- A job is enqueued, leased and its lease is lost. -/
def fittingCalls : List (Call reference (Option Int)) :=
  [.enqueue emptyPayload [] 3 (some 0), .leaseNext (str "a") (some 1), .recoverOrphans (some 90)]

theorem fits_fittingCalls : ∀ call ∈ fittingCalls, call.Fits (.seconds 30) := by
  intro call hcall
  rcases List.mem_cons.mp hcall with rfl | hcall
  · exact ⟨rfl, by simp [emptyPayload, Value.Plain, PlainMembers], by decide⟩
  · rcases List.mem_cons.mp hcall with rfl | hcall
    · rfl
    · rw [List.mem_singleton.mp hcall]
      rfl

theorem backends_agree_fittingCalls :
    observe (jsonQueue (.seconds 30) none) {} fittingCalls =
      observe (sqliteQueue (.seconds 30) none) {} fittingCalls :=
  backends_agree (.seconds 30) none fittingCalls fits_fittingCalls

theorem run_enqueue_json (maxAttempts : Int) (ts : T) {jobId : Str}
    (hid : deterministicJobId (P := P) [] [] = .ok jobId) :
    (run (enqueue (jsonQueue c none) emptyPayload [] maxAttempts ts) ({} : World P T)).1 =
      .ok (newRow jobId (.dict []) [] maxAttempts ts) := by
  rw [run_enqueue_empty hid]
  exact congrArg Prod.fst (run_bind_of_ok (run_upsertRow_empty rfl maxAttempts ts hid))

theorem run_enqueue_sqlite {maxAttempts : Int} (hmax : 2 ^ 63 ≤ maxAttempts) (ts : T) {jobId : Str}
    (hid : deterministicJobId (P := P) [] [] = .ok jobId) (row : Job T P.Obj) :
    (run (enqueue (sqliteQueue c none) emptyPayload [] maxAttempts ts) ({} : World P T)).1 ≠
      .ok row := by
  rw [run_enqueue_empty hid]
  cases hrow : sqliteRow P c (newRow jobId (.dict []) [] maxAttempts ts) with
  | ok r =>
    obtain ⟨t, -, hb, -⟩ := sqliteRow_eq_ok.mp hrow
    have hlimit : max 1 maxAttempts < 2 ^ 63 := hb.max.2
    have := le_max_right 1 maxAttempts
    omega
  | error e =>
    have hupsert : run (upsertRow (sqliteQueue c none) none
        (newRow jobId (.dict []) [] maxAttempts ts)) ({} : World P T) = (.error e, {}) := by
      rw [run_upsertRow_of_sqlite rfl, executeUpsert, show (sqliteQueue c none).clock = c from rfl,
        hrow]
    intro h
    have hrun := (congrArg Prod.fst (run_bind_of_error hupsert)).symm.trans h
    cases hrun

theorem not_backends_agree :
    observe (P := reference) (jsonQueue (.seconds 30) none) {}
        [.enqueue emptyPayload [] (2 ^ 63) (some 0)] ≠
      observe (sqliteQueue (.seconds 30) none) {} [.enqueue emptyPayload [] (2 ^ 63) (some 0)] := by
  obtain ⟨jobId, hid⟩ := exists_jobId reference
  intro h
  have hreply := congrArg Prod.fst (List.cons.inj h).1
  dsimp only [Call.program] at hreply
  rw [run_bind_pure, run_bind_pure, run_enqueue_json (2 ^ 63) (some 0) hid] at hreply
  have hsqlite := run_enqueue_sqlite (c := .seconds 30) (le_refl (2 ^ 63)) (some 0) hid
  cases hrun : (run (enqueue (sqliteQueue (.seconds 30) none) emptyPayload [] (2 ^ 63) (some 0))
      ({} : World reference (Option Int))).1 with
  | ok row => exact hsqlite row hrun
  | error e =>
    rw [hrun] at hreply
    cases hreply

end Adaad.JobQueue
