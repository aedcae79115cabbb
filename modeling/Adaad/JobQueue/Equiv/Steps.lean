import Adaad.JobQueue.Equiv.Rows

/-!
# What the calls do to the jobs

Each step of a call that finds what it expects moves at most one job along its life
(`Call.tracks`), and the steps of a call that runs alone do (`Call.steady`).  Together they carry
the invariants of `Lifecycle` to every state that a store goes through.

`Known` is what the steps of a call tell about it: the leases it has taken and jobs that it has
seen in the queue.
-/

namespace Adaad.JobQueue

open Py Program

variable {P : Platform} {T A : Type} {q : Config T}

/-! ### Rows that are written and read -/

theorem isSome_encode_iff {s : Str} : (encode s).isSome = true ↔ Encodable s := by
  rw [Option.isSome_iff_exists, exists_encode_iff]

theorem encodable_append_iff {s t : Str} : Encodable (s ++ t) ↔ Encodable s ∧ Encodable t :=
  List.forall_mem_append

/-- The times that may be missing are not `NaN`. -/
def NanFree (c : Clock T) (row : Job T A) : Prop :=
  ∀ t, row.leaseExpiresAt = some t ∨ row.heartbeatAt = some t → c.isNan t = false

theorem status_storedRow {row r : Job T P.Obj} (h : storedRow P row = .ok r) :
    r.status = row.status := by
  unfold storedRow at h
  split at h
  · cases h
  · rw [← Except.ok.inj h]
    rfl

theorem saveJson_eq_ok {rows stored : List (Job T P.Obj)} :
    saveJson P rows = .ok stored ↔
      List.Forall₂ (fun row r => storedRow P row = .ok r) rows stored ∧
        ∀ row ∈ rows, (encode (row.chars P)).isSome = true := by
  unfold saveJson
  rw [bind_eq_ok]
  constructor
  · rintro ⟨rs, hrs, h⟩
    split at h
    · next hall =>
      rw [← Except.ok.inj h]
      exact ⟨mapM_eq_ok.mp hrs, List.all_eq_true.mp hall⟩
    · cases h
  · rintro ⟨hrows, hall⟩
    refine ⟨stored, mapM_eq_ok.mpr hrows, ?_⟩
    rw [if_pos (List.all_eq_true.mpr hall)]
    rfl

theorem map_status_of_forall₂ {A B ε : Type} {f : Job T A → Except ε (Job T B)} {rows rows'}
    (hf : ∀ row r, f row = .ok r → r.status = row.status)
    (h : List.Forall₂ (fun row r => f row = .ok r) rows rows') :
    rows'.map Job.status = rows.map Job.status := by
  induction h with
  | nil => rfl
  | cons hr _ ih => rw [List.map_cons, List.map_cons, hf _ _ hr, ih]

theorem bindText_eq_ok {s t : Str} :
    bindText s = .ok t ↔ t = s ∧ (encode s).isSome = true := by
  unfold bindText
  split
  · next h => exact ⟨fun he => ⟨(Except.ok.inj he).symm, h⟩, fun he => congrArg _ he.1.symm⟩
  · next h => exact iff_of_false (fun he => by cases he) fun he => h he.2

theorem bindInt_eq_ok {i j : Int} :
    bindInt i = .ok j ↔ j = i ∧ -(2 ^ 63) ≤ i ∧ i < 2 ^ 63 := by
  unfold bindInt
  split
  · next h => exact ⟨fun he => ⟨(Except.ok.inj he).symm, h⟩, fun he => congrArg _ he.1.symm⟩
  · next h => exact iff_of_false (fun he => by cases he) fun he => h he.2

/-- The row as SQLite has it: `NaN` is `NULL`. -/
def tableRow (c : Clock T) (row : Job T A) (payloadJson : Str) : Job T Str :=
  { row with
    payload := payloadJson
    leaseExpiresAt := row.leaseExpiresAt.filter fun t => !c.isNan t
    heartbeatAt := row.heartbeatAt.filter fun t => !c.isNan t }

/-- What SQLite asks of a row besides the times. -/
structure Bindable (row : Job T A) (payloadJson : Str) : Prop where
  jobId : (encode row.jobId).isSome = true
  payload : (encode payloadJson).isSome = true
  dedupeKey : (encode row.dedupeKey).isSome = true
  leaseOwner : (encode row.leaseOwner).isSome = true
  attempts : -(2 ^ 63) ≤ row.attemptCount ∧ row.attemptCount < 2 ^ 63
  max : -(2 ^ 63) ≤ row.maxAttempts ∧ row.maxAttempts < 2 ^ 63
  leaseId : (encode row.leaseId).isSome = true
  error : (encode row.error).isSome = true

theorem sqliteRow_eq_ok {c : Clock T} {row : Job T P.Obj} {r : Job T Str} :
    sqliteRow P c row = .ok r ↔
      ∃ t, dumpsSorted P .compact row.payload = some t ∧ Bindable row t ∧
        c.isNan row.createdAt = false ∧ c.isNan row.updatedAt = false ∧ r = tableRow c row t := by
  unfold sqliteRow
  split
  · next t ht =>
    simp only [bind_eq_ok, bindText_eq_ok, bindInt_eq_ok]
    constructor
    · rintro ⟨_, ⟨rfl, h₁⟩, t, ⟨rfl, h₂⟩, _, ⟨rfl, h₃⟩, _, ⟨rfl, h₄⟩, _, ⟨rfl, h₅⟩, _, ⟨rfl, h₆⟩,
        _, ⟨rfl, h₇⟩, _, ⟨rfl, h₈⟩, h⟩
      split at h
      · cases h
      · next hnan =>
        rw [Bool.or_eq_true, not_or, Bool.not_eq_true, Bool.not_eq_true] at hnan
        exact ⟨t, ht, ⟨h₁, h₂, h₃, h₄, h₅, h₆, h₇, h₈⟩, hnan.1, hnan.2, (Except.ok.inj h).symm⟩
    · rintro ⟨t', ht', hb, hcreated, hupdated, rfl⟩
      obtain rfl := Option.some.inj (ht.symm.trans ht')
      refine ⟨_, ⟨rfl, hb.jobId⟩, _, ⟨rfl, hb.payload⟩, _, ⟨rfl, hb.dedupeKey⟩, _,
        ⟨rfl, hb.leaseOwner⟩, _, ⟨rfl, hb.attempts⟩, _, ⟨rfl, hb.max⟩, _, ⟨rfl, hb.leaseId⟩, _,
        ⟨rfl, hb.error⟩, ?_⟩
      rw [hcreated, hupdated]
      rfl
  · next h =>
    refine iff_of_false (fun he => by cases he) ?_
    rintro ⟨t, ht, -⟩
    exact h t ht

theorem nanFree_tableRow (c : Clock T) (row : Job T A) (t : Str) :
    NanFree c (tableRow c row t) := by
  intro u hu
  have hfilter : ∀ v : Option T, (v.filter fun t => !c.isNan t) = some u → c.isNan u = false := by
    intro v hv
    have := (Option.filter_eq_some_iff.mp hv).2
    simpa using this
  exact hu.elim (hfilter _) (hfilter _)

theorem tableRow_eq {c : Clock T} {row : Job T A} (h : NanFree c row) (t : Str) :
    tableRow c row t = { row with payload := t } := by
  have hfilter : ∀ v : Option T, (∀ u, v = some u → c.isNan u = false) →
      (v.filter fun t => !c.isNan t) = v := by
    intro v hv
    cases v with
    | none => rfl
    | some u => simp [Option.filter, hv u rfl]
  unfold tableRow
  rw [hfilter _ fun u hu => h u (Or.inl hu), hfilter _ fun u hu => h u (Or.inr hu)]

theorem status_tableRow {c : Clock T} {row : Job T A} (h : NanFree c row) (t : Str) :
    (tableRow c row t).status = row.status := by
  rw [tableRow_eq h]
  rfl

theorem status_loadRow {row : Job T Str} {r : Job T P.Obj} (h : loadRow P row = .ok r) :
    r.status = row.status := by
  unfold loadRow at h
  split at h
  · cases h
  · rw [← Except.ok.inj h]
    rfl

/-! ### The rows of a world -/

/-- The rows of the store, without their payloads. -/
def Config.rows (q : Config T) (s : World P T) : List (Job T Unit) :=
  match q.backend with
  | .sqlite => s.table.map Job.status
  | .json => s.file.map Job.status

theorem status_eq_findJob (q : Config T) (s : World P T) (jobId : Str) :
    q.status s jobId = findJob (q.rows s) jobId := by
  unfold Config.status Config.rows
  cases q.backend with
  | json => exact (findJob_map status_jobId _ _).symm
  | sqlite => exact (findJob_map status_jobId _ _).symm

theorem distinct_map_status {rows : List (Job T A)} :
    Distinct (rows.map Job.status) ↔ Distinct rows := by
  unfold Distinct
  rw [List.map_map]
  rfl

/-- What holds of the files and the tables at any time. -/
structure Tidy (q : Config T) (s : World P T) : Prop where
  file : Distinct s.file
  table : Distinct s.table
  times : ∀ row ∈ s.table, NanFree q.clock row

theorem tidy_empty (q : Config T) : Tidy q ({} : World P T) where
  file := List.nodup_nil
  table := List.nodup_nil
  times _ h := absurd h List.not_mem_nil

theorem Tidy.rows {s : World P T} (h : Tidy q s) : Distinct (q.rows s) := by
  unfold Config.rows
  cases q.backend with
  | json => exact distinct_map_status.mpr h.file
  | sqlite => exact distinct_map_status.mpr h.table

/-- Rows that `list_jobs` has returned. -/
structure Listed (q : Config T) (rows : List (Job T P.Obj)) : Prop where
  distinct : Distinct rows
  times : q.backend = .sqlite → ∀ row ∈ rows, NanFree q.clock row

theorem nanFree_of_status {A B : Type} {c : Clock T} {row : Job T A} {r : Job T B}
    (h : r.status = row.status) (hrow : NanFree c row) : NanFree c r := by
  intro t ht
  have hexpires : r.leaseExpiresAt = row.leaseExpiresAt := congrArg Job.leaseExpiresAt h
  have hheartbeat : r.heartbeatAt = row.heartbeatAt := congrArg Job.heartbeatAt h
  rw [hexpires, hheartbeat] at ht
  exact hrow t ht

theorem perm_of_jobs {s : World P T} {rows : List (Job T P.Obj)} (h : q.jobs s = .ok rows) :
    (rows.map Job.status).Perm (q.rows s) := by
  unfold Config.jobs at h
  unfold Config.rows
  cases hb : q.backend with
  | json =>
    rw [hb] at h
    rw [← Except.ok.inj h]
    exact (perm_sorted q.clock s.file).map Job.status
  | sqlite =>
    rw [hb] at h
    have hrows := mapM_eq_ok.mp h
    rw [map_status_of_forall₂ (fun _ _ => status_loadRow) hrows]
    exact (perm_sorted q.clock s.table).map Job.status

theorem Tidy.listed {s : World P T} (hs : Tidy q s) {rows : List (Job T P.Obj)}
    (h : q.jobs s = .ok rows) : Listed q rows := by
  refine ⟨distinct_map_status.mp (hs.rows.perm (perm_of_jobs h).symm), fun hb row hrow => ?_⟩
  have hmem := (perm_of_jobs h).mem_iff.mp (List.mem_map_of_mem hrow)
  unfold Config.rows at hmem
  rw [hb] at hmem
  obtain ⟨r, hr, hstatus⟩ := List.mem_map.mp hmem
  exact nanFree_of_status hstatus.symm (hs.times r hr)

theorem status_of_jobs {s : World P T} (hs : Tidy q s) {rows : List (Job T P.Obj)}
    (h : q.jobs s = .ok rows) (jobId : Str) :
    q.status s jobId = (findJob rows jobId).map Job.status := by
  rw [status_eq_findJob, ← findJob_perm (distinct_map_status.mpr (hs.listed h).distinct)
    (perm_of_jobs h), findJob_map status_jobId]

/-! ### One step -/

theorem status_of_sqlite (hb : q.backend = .sqlite) (s : World P T) (jobId : Str) :
    q.status s jobId = (findJob s.table jobId).map Job.status := by
  unfold Config.status
  rw [hb]

theorem status_of_json (hb : q.backend = .json) (s : World P T) (jobId : Str) :
    q.status s jobId = (findJob s.file jobId).map Job.status := by
  unfold Config.status
  rw [hb]

theorem run_upsertRow_of_sqlite (hb : q.backend = .sqlite) (old : Option (Job T P.Obj))
    (row : Job T P.Obj) (s : World P T) :
    run (upsertRow q old row) s = executeUpsert q.clock row s := by
  unfold upsertRow
  rw [hb]
  rfl

theorem run_upsertRow_of_json (hb : q.backend = .json) (old : Option (Job T P.Obj))
    (row : Job T P.Obj) (s : World P T) :
    run (upsertRow q old row) s = saveUpsert q.clock row (loadJson P q.clock s) s := by
  unfold upsertRow
  rw [hb]
  rfl

/-- The row has been put into the store. -/
structure Upserted (q : Config T) (row : Job T P.Obj) (s s' : World P T) : Prop where
  tidy : Tidy q s'
  status : q.status s' = Function.update (q.status s) row.jobId (some row.status)
  transitionFile : s'.transitionFile = s.transitionFile
  transitionTable : s'.transitionTable = s.transitionTable

theorem upserted_table (hb : q.backend = .sqlite) {s : World P T} (hs : Tidy q s)
    {row : Job T P.Obj} {r : Job T Str} (hstatus : r.status = row.status)
    (hr : NanFree q.clock r) : Upserted q row s { s with table := upsertInto r s.table } where
  tidy := by
    refine ⟨hs.file, hs.table.upsertInto r, fun r' hr' => ?_⟩
    rcases mem_upsertInto hr' with rfl | hr'
    · exact hr
    · exact hs.times r' hr'
  status := by
    have hid : r.jobId = row.jobId := congrArg Job.jobId hstatus
    funext jobId
    rw [status_of_sqlite hb, findJob_upsertInto, hid]
    by_cases hrow : row.jobId = jobId
    · rw [if_pos hrow, ← hrow, Function.update_self, Option.map_some, hstatus]
    · rw [if_neg hrow, Function.update_of_ne (Ne.symm hrow), status_of_sqlite hb]
  transitionFile := rfl
  transitionTable := rfl

theorem upserted_file (hb : q.backend = .json) {s : World P T} (hs : Tidy q s)
    {row : Job T P.Obj} {stored : List (Job T P.Obj)}
    (h : saveJson P (q.clock.sorted (upsertInto row (loadJson P q.clock s))) = .ok stored) :
    Upserted q row s { s with file := stored } := by
  have hload : Distinct (loadJson P q.clock s) := hs.file.perm (perm_sorted q.clock s.file).symm
  have hupsert := hload.upsertInto row
  have hsorted := hupsert.perm (perm_sorted q.clock _).symm
  have hstatus := map_status_of_forall₂ (fun _ _ => status_storedRow) (saveJson_eq_ok.mp h).1
  refine ⟨⟨?_, hs.table, hs.times⟩, ?_, rfl, rfl⟩
  · rw [← distinct_map_status, hstatus, distinct_map_status]
    exact hsorted
  · funext jobId
    rw [status_of_json hb, ← findJob_map status_jobId, hstatus, findJob_map status_jobId,
      findJob_perm hsorted (perm_sorted q.clock _), findJob_upsertInto]
    by_cases hrow : row.jobId = jobId
    · rw [if_pos hrow, ← hrow, Function.update_self, Option.map_some]
    · rw [if_neg hrow, Function.update_of_ne (Ne.symm hrow), status_of_json hb,
        ← findJob_perm hload (perm_sorted q.clock s.file)]

theorem run_upsertRow {s : World P T} (hs : Tidy q s) (old : Option (Job T P.Obj))
    {row : Job T P.Obj} (hnan : q.backend = .sqlite → q.clock.isNan row.updatedAt = false →
      NanFree q.clock row) :
    (∃ e, run (upsertRow q old row) s = (.error e, s)) ∨
      ∃ s', run (upsertRow q old row) s = (.ok (), s') ∧ Upserted q row s s' := by
  cases hb : q.backend with
  | sqlite =>
    rw [run_upsertRow_of_sqlite hb, executeUpsert]
    cases hrow : sqliteRow P q.clock row with
    | error e => exact Or.inl ⟨e, rfl⟩
    | ok r =>
      obtain ⟨t, -, -, -, hupdated, rfl⟩ := sqliteRow_eq_ok.mp hrow
      have hstatus := status_tableRow (hnan hb hupdated) t
      exact Or.inr ⟨_, rfl, upserted_table hb hs hstatus (nanFree_tableRow q.clock row t)⟩
  | json =>
    rw [run_upsertRow_of_json hb, saveUpsert]
    cases hsave : saveJson P (q.clock.sorted (upsertInto row (loadJson P q.clock s))) with
    | error e => exact Or.inl ⟨.raised e, rfl⟩
    | ok stored => exact Or.inr ⟨_, rfl, upserted_file hb hs hsave⟩

/-! ### The steps of a call -/

/-- What is known from the steps of a call: the leases it has taken, each with its attempt, and
jobs that it has seen in the queue. -/
structure Known where
  leases : List (Str × Int) := []
  present : List Str := []

/-- A step moves a job or none, and what is known after it is so. -/
structure Does (q : Config T) (g : Known) (s s' : World P T) (g' : Known) : Prop where
  moves : Moves (q.status s) (q.status s')
  leases : g'.leases = g.leases ∨ ∃ jobId, Leases jobId (q.status s) (q.status s') ∧
    g'.leases = g.leases ++ [(jobId, Jobs.attempts (q.status s') jobId)]
  present : ∀ jobId ∈ g'.present, jobId ∈ g.present ∨ (q.status s' jobId).isSome = true

variable {α : Type} {g g' : Known} {Q : Known → Except Fault α → Prop}

theorem Does.quiet {s s' : World P T} (h : q.status s' = q.status s) : Does q g s s' g where
  moves := .quiet h
  leases := Or.inl rfl
  present _ hid := Or.inl hid

/-- The steps of a program that find what they expect. -/
abbrev CallTracks (q : Config T) (Q : Known → Except Fault α → Prop) (g : Known)
    (p : Program Fault (World P T) α) : Prop :=
  Tracks (Tidy q) (Does q) Q g p

theorem tracks_listJobs {Q : Known → Except Fault (List (Job T P.Obj)) → Prop}
    (hok : ∀ rows, Listed q rows → Q g (.ok rows)) (herror : ∀ e, Q g (.error e)) :
    CallTracks q Q g (listJobs q) := by
  refine tracks_atomic fun s hs _ => ⟨hs, g, .quiet rfl, ?_⟩
  cases hrows : q.jobs s with
  | error e => exact herror e
  | ok rows => exact hok rows (hs.listed hrows)

theorem tracks_getJob {jobId : Str} {Q : Known → Except Fault (Option (Job T P.Obj)) → Prop}
    (hsome : ∀ row : Job T P.Obj, row.jobId = jobId →
      (q.backend = .sqlite → NanFree q.clock row) →
      Q { g with present := jobId :: g.present } (.ok (some row)))
    (hnone : Q g (.ok none)) (herror : ∀ e, Q g (.error e)) :
    CallTracks q Q g (getJob q jobId) := by
  intro s hs _
  refine ⟨hs, ?_⟩
  show ∃ g', _ ∧ Tracks _ _ _ g' (Program.bind (.done (q.jobs s)) _)
  cases hrows : q.jobs s with
  | error e => exact ⟨g, .quiet rfl, herror e⟩
  | ok rows =>
    show ∃ g', _ ∧ Q g' (.ok (findJob rows jobId))
    cases hfind : findJob rows jobId with
    | none => exact ⟨g, .quiet rfl, hnone⟩
    | some row =>
      have hrow := mem_of_findJob hfind
      refine ⟨{ g with present := jobId :: g.present }, ⟨.quiet rfl, Or.inl rfl, ?_⟩,
        hsome row (jobId_of_findJob hfind) fun hb => (hs.listed hrows).times hb row hrow⟩
      intro id hid
      rcases List.mem_cons.mp hid with rfl | hid
      · refine Or.inr ?_
        show (q.status s id).isSome = true
        rw [status_of_jobs hs hrows, hfind]
        rfl
      · exact Or.inl hid

theorem tracks_upsertRow {old : Option (Job T P.Obj)} {row : Job T P.Obj}
    {Q : Known → Except Fault Unit → Prop}
    (hnan : q.backend = .sqlite → q.clock.isNan row.updatedAt = false → NanFree q.clock row)
    (hok : ∀ s s' : World P T, q.status s row.jobId = old.map Job.status →
      q.status s' = Function.update (q.status s) row.jobId (some row.status) →
      Does q g s s' g' ∧ Q g' (.ok ()))
    (herror : ∀ e, Q g (.error e)) : CallTracks q Q g (upsertRow q old row) := by
  have hrun : ∀ s : World P T, Tidy q s → q.unchanged old row s →
      Tidy q (run (upsertRow q old row) s).2 ∧
        ∃ g'', Does q g s (run (upsertRow q old row) s).2 g'' ∧
          Q g'' (run (upsertRow q old row) s).1 := by
    intro s hs hold
    rcases run_upsertRow hs old hnan with ⟨e, h⟩ | ⟨s', h, hs'⟩
    · rw [h]
      exact ⟨hs, g, .quiet rfl, herror e⟩
    · rw [h]
      obtain ⟨hdoes, hq⟩ := hok s s' hold hs'.status
      exact ⟨hs'.tidy, g', hdoes, hq⟩
  cases hb : q.backend with
  | sqlite =>
    simp only [run_upsertRow_of_sqlite hb] at hrun
    unfold upsertRow
    rw [hb]
    exact tracks_atomic hrun
  | json =>
    simp only [run_upsertRow_of_json hb] at hrun
    unfold upsertRow
    rw [hb]
    refine fun s hs _ => ⟨hs, g, .quiet rfl, ?_⟩
    refine tracks_atomic fun t ht hexpects => ?_
    obtain ⟨hload, hold⟩ := hexpects
    rw [← hload]
    exact hrun t ht hold

theorem status_congr {s s' : World P T} (hfile : s'.file = s.file) (htable : s'.table = s.table) :
    q.status s' = q.status s := by
  unfold Config.status
  rw [hfile, htable]

theorem tracks_appendTransition {backend : Backend} {row : Transition T}
    {Q : Known → Except Fault Unit → Prop} (hQ : ∀ x, Q g x) :
    CallTracks (P := P) q Q g (appendTransition q.clock backend row) := by
  cases backend with
  | sqlite =>
    refine tracks_atomic fun s hs _ => ?_
    split
    · exact ⟨hs, g, .quiet rfl, hQ _⟩
    split
    · exact ⟨hs, g, .quiet rfl, hQ _⟩
    · exact ⟨⟨hs.file, hs.table, hs.times⟩, g, .quiet (status_congr rfl rfl), hQ _⟩
  | json =>
    refine fun s hs _ => ⟨hs, g, .quiet rfl, ?_⟩
    refine tracks_atomic fun t ht _ => ?_
    split
    · exact ⟨⟨ht.file, ht.table, ht.times⟩, g, .quiet (status_congr rfl rfl), hQ _⟩
    · exact ⟨ht, g, .quiet rfl, hQ _⟩

theorem tracks_recordTransition {row : Job T P.Obj} {fromState toState reason workerId : Str}
    {ts : T} {metadata : List (Str × MetaValue T)} {Q : Known → Except Fault Unit → Prop}
    (hQ : ∀ x, Q g x) :
    CallTracks q Q g
      (recordTransition q row fromState toState reason workerId ts metadata) := by
  unfold recordTransition
  split
  · exact hQ _
  · split
    · exact hQ _
    · exact tracks_appendTransition hQ

end Adaad.JobQueue
