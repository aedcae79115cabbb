import Adaad.JobQueue.Equiv.Calls

/-!
# The queue and its transition ledger

A call puts a row into the queue and then appends a transition to the ledger, which is another
store.  `Told q s` says that they tell the same story: the transitions of each job are a path from
its being enqueued to the state it is in.

Once the row is in the queue the transition is refused only for a time that is `NaN`, and only where
a JSON queue, which has stored it, writes to an SQLite ledger (`Admitted`).
-/

namespace Adaad.JobQueue

open Py Program

variable {P : Platform} {T α : Type} {q : Config T} {old : Option (Job T P.Obj)}
  {row : Job T P.Obj}

/-! ### Paths -/

/-- The transitions lead from the start to the state, each from where the one before has led. -/
structure IsPath (rows : List (Transition T)) (state : Str) : Prop where
  first : (rows.head?.map fun r => (r.fromState, r.toState)) = some ([], JobState.queued.text)
  linked : rows.IsChain fun r r' => r'.fromState = r.toState
  last : rows.getLast?.map Transition.toState = some state

theorem isPath_singleton {r : Transition T} (hfrom : r.fromState = [])
    (hto : r.toState = JobState.queued.text) : IsPath [r] r.toState where
  first := by rw [List.head?_cons, Option.map_some, hfrom, hto]
  linked := .singleton r
  last := rfl

theorem IsPath.append {rows : List (Transition T)} {state : Str} (h : IsPath rows state)
    {r : Transition T} (hfrom : r.fromState = state) : IsPath (rows ++ [r]) r.toState where
  first := by
    rw [List.head?_append]
    have := h.first
    cases hrows : rows.head? with
    | none =>
      rw [hrows] at this
      cases this
    | some r₀ =>
      rw [hrows] at this
      exact this
  linked := by
    refine h.linked.append (.singleton r) fun x hx y hy => ?_
    rw [List.head?_cons, Option.mem_some_iff] at hy
    have hlast := h.last
    rw [Option.mem_def.mp hx, Option.map_some, Option.some.injEq] at hlast
    rw [← hy, hfrom, hlast]
  last := by
    rw [List.getLast?_append, List.getLast?_singleton]
    rfl

/-! ### What is kept -/

/-- The transitions of each job are a path to the state that it is in. -/
structure Told (q : Config T) (s : World P T) : Prop where
  path : ∀ jobId row, q.status s jobId = some row →
    IsPath (listTransitions q s jobId) row.state.text
  absent : ∀ jobId, q.status s jobId = none → listTransitions q s jobId = []

/-- What holds of the queue and the ledger between two calls. -/
structure Sound (q : Config T) (s : World P T) : Prop where
  tidy : Tidy q s
  owners : ∀ jobId row, q.status s jobId = some row → Encodable row.leaseOwner
  transitions : ∀ r ∈ s.transitionFile, Encodable r.chars
  told : Told q s

/-- A time that the ledger takes, if the queue does. -/
def Admitted (q : Config T) (ts : T) : Prop :=
  q.backend = .json → q.transitions = some .sqlite → q.clock.isNan ts = false

/-- UTF-8 can write the strings of a row that its transitions repeat. -/
structure Writable (row : Job T P.Obj) : Prop where
  jobId : Encodable row.jobId
  leaseOwner : Encodable row.leaseOwner
  leaseId : Encodable row.leaseId
  error : Encodable row.error

/-- The transition tells of the row that was made from the old one. -/
structure Tells (old : Option (Job T P.Obj)) (row : Job T P.Obj) (r : Transition T) : Prop where
  jobId : r.jobId = row.jobId
  fromState : r.fromState = (old.map fun o => o.state.text).getD []
  toState : r.toState = row.state.text
  first : old = none → row.state = .queued
  atTs : r.atTs = row.updatedAt
  kept : r.fromState ≠ r.toState ∨ r.reason = str "heartbeat"
  chars : Writable row → (∀ o, old = some o → Encodable o.leaseOwner) → Encodable r.chars

theorem sound_empty : Sound q ({} : World P T) where
  tidy := tidy_empty q
  owners jobId row h := by
    unfold Config.status at h
    cases hb : q.backend <;> rw [hb] at h <;> cases h
  transitions r hr := absurd hr List.not_mem_nil
  told := by
    constructor
    · intro jobId row h
      rw [status_eq_findJob] at h
      unfold Config.rows at h
      cases hb : q.backend <;> rw [hb] at h <;> cases h
    · intro jobId _
      unfold listTransitions Config.transitionRows
      rcases q.transitions with _ | _ | _ <;> rfl

theorem writable_of_upsert {s s' : World P T} (h : run (upsertRow q old row) s = (.ok (), s')) :
    Writable row ∧ (q.backend = .sqlite → q.clock.isNan row.updatedAt = false) := by
  cases hb : q.backend with
  | sqlite =>
    rw [run_upsertRow_of_sqlite hb, executeUpsert] at h
    cases hrow : sqliteRow P q.clock row with
    | error e =>
      rw [hrow] at h
      cases h
    | ok r =>
      obtain ⟨t, -, hbind, -, hupdated, -⟩ := sqliteRow_eq_ok.mp hrow
      refine ⟨⟨?_, ?_, ?_, ?_⟩, fun _ => hupdated⟩
      · exact isSome_encode_iff.mp hbind.jobId
      · exact isSome_encode_iff.mp hbind.leaseOwner
      · exact isSome_encode_iff.mp hbind.leaseId
      · exact isSome_encode_iff.mp hbind.error
  | json =>
    rw [run_upsertRow_of_json hb, saveUpsert] at h
    cases hsave : saveJson P (q.clock.sorted (upsertInto row (loadJson P q.clock s))) with
    | error e =>
      rw [hsave] at h
      cases h
    | ok stored =>
      have hmem : row ∈ q.clock.sorted (upsertInto row (loadJson P q.clock s)) := by
        rw [(perm_sorted q.clock _).mem_iff]
        exact mem_upsertInto_self row _
      have hchars := isSome_encode_iff.mp ((saveJson_eq_ok.mp hsave).2 row hmem)
      unfold Job.chars at hchars
      simp only [encodable_append_iff] at hchars
      obtain ⟨hid, -, -, howner, hlease, herror⟩ := hchars
      exact ⟨⟨hid, howner, hlease, herror⟩, fun h => by cases h⟩

theorem run_appendTransition {backend : Backend} {r : Transition T} {s : World P T}
    (hq : q.transitions = some backend) (htransitions : ∀ r ∈ s.transitionFile, Encodable r.chars)
    (hchars : Encodable r.chars) (hnan : backend = .sqlite → q.clock.isNan r.atTs = false) :
    ∃ s', run (appendTransition q.clock backend r) s = (.ok (), s') ∧ QueueKept s s' ∧
      (∀ r ∈ s'.transitionFile, Encodable r.chars) ∧
      q.transitionRows s' = q.transitionRows s ++ [r] := by
  unfold Config.transitionRows
  rw [hq]
  cases backend with
  | sqlite =>
    have hencode : (encode r.chars).isNone = false := by
      rw [← Option.not_isSome, isSome_encode_iff.mpr hchars]
      rfl
    unfold appendTransition
    rw [run_atomic, hencode, hnan rfl]
    exact ⟨_, rfl, ⟨rfl, rfl⟩, htransitions, rfl⟩
  | json =>
    have hall : ∀ r' ∈ s.transitionFile ++ [r], Encodable r'.chars := by
      intro r' hr'
      rcases List.mem_append.mp hr' with hr' | hr'
      · exact htransitions r' hr'
      · rw [List.mem_singleton.mp hr']
        exact hchars
    have htest : ((s.transitionFile ++ [r]).all fun row => (encode row.chars).isSome) = true :=
      List.all_eq_true.mpr fun r' hr' => isSome_encode_iff.mpr (hall r' hr')
    unfold appendTransition
    dsimp only
    rw [run_bind, run_read]
    dsimp only
    rw [run_atomic, if_pos htest]
    exact ⟨_, rfl, ⟨rfl, rfl⟩, hall, rfl⟩

theorem listTransitions_append {s s' : World P T} {r : Transition T}
    (h : q.transitionRows s' = q.transitionRows s ++ [r]) (jobId : Str) :
    listTransitions q s' jobId =
      listTransitions q s jobId ++ if r.jobId = jobId then [r] else [] := by
  unfold listTransitions
  rw [h, List.filter_append, List.filter_singleton]
  simp

theorem listTransitions_congr {s s' : World P T} (hfile : s'.transitionFile = s.transitionFile)
    (htable : s'.transitionTable = s.transitionTable) :
    listTransitions q s' = listTransitions q s ∧ q.transitionRows s' = q.transitionRows s := by
  unfold listTransitions Config.transitionRows
  rw [hfile, htable]
  exact ⟨rfl, rfl⟩

theorem told_of_append {s s' : World P T} {r : Transition T} (hs : Told q s)
    (hold : q.status s row.jobId = old.map Job.status)
    (hstatus : q.status s' = Function.update (q.status s) row.jobId (some row.status))
    (hrows : q.transitionRows s' = q.transitionRows s ++ [r]) (hr : Tells old row r) :
    Told q s' := by
  have hrest : ∀ jobId, jobId ≠ row.jobId → q.status s' jobId = q.status s jobId ∧
      listTransitions q s' jobId = listTransitions q s jobId := by
    intro jobId hid
    rw [listTransitions_append hrows, hr.jobId, if_neg (Ne.symm hid), List.append_nil, hstatus,
      Function.update_of_ne hid]
    exact ⟨rfl, rfl⟩
  have hpath : IsPath (listTransitions q s' row.jobId) row.state.text := by
    rw [listTransitions_append hrows, hr.jobId, if_pos rfl, ← hr.toState]
    cases hcase : old with
    | none =>
      rw [hcase] at hold
      rw [hs.absent row.jobId hold, List.nil_append]
      refine isPath_singleton ?_ ?_
      · rw [hr.fromState, hcase]
        rfl
      · rw [hr.toState, hr.first hcase]
    | some o =>
      rw [hcase] at hold
      refine (hs.path row.jobId o.status hold).append ?_
      rw [hr.fromState, hcase]
      rfl
  constructor
  · intro jobId r' hr'
    by_cases hid : jobId = row.jobId
    · rw [hid, hstatus, Function.update_self] at hr'
      rw [hid, ← Option.some.inj hr']
      exact hpath
    · rw [(hrest jobId hid).2]
      exact hs.path jobId r' ((hrest jobId hid).1 ▸ hr')
  · intro jobId hnone
    by_cases hid : jobId = row.jobId
    · rw [hid, hstatus, Function.update_self] at hnone
      cases hnone
    · rw [(hrest jobId hid).2]
      exact hs.absent jobId ((hrest jobId hid).1 ▸ hnone)

/-- A row that was made from the row of the job as it stands is put into the store and its
transition is appended; or the store refuses the row, and nothing has changed. -/
theorem run_move {s : World P T} {fromState toState reason workerId : Str} {ts : T}
    {metadata : List (Str × MetaValue T)} {p : Program Fault (World P T) α} (hs : Sound q s)
    {backend : Backend} (hq : q.transitions = some backend) (hts : Admitted q ts)
    (hold : q.unchanged old row s)
    (hnan : q.backend = .sqlite → q.clock.isNan row.updatedAt = false → NanFree q.clock row)
    (hr : Tells old row ⟨row.jobId, fromState, toState, reason, workerId, ts, metadata⟩) :
    (∃ e, run (do
        upsertRow q old row
        recordTransition q row fromState toState reason workerId ts metadata
        p) s = (.error e, s)) ∨
      ∃ s', Sound q s' ∧
        q.status s' = Function.update (q.status s) row.jobId (some row.status) ∧
        run (do
          upsertRow q old row
          recordTransition q row fromState toState reason workerId ts metadata
          p) s = run p s' := by
  rcases run_upsertRow hs.tidy old hnan with ⟨e, h⟩ | ⟨s₁, h, hs₁⟩
  · exact Or.inl ⟨e, run_bind_of_error h⟩
  refine Or.inr ?_
  obtain ⟨hwritable, hupdated⟩ := writable_of_upsert h
  have howner : ∀ o, old = some o → Encodable o.leaseOwner := by
    intro o ho
    refine hs.owners row.jobId o.status ?_
    rw [hold, ho]
    rfl
  have htime : backend = .sqlite → q.clock.isNan ts = false := by
    intro hb
    cases hqb : q.backend with
    | json => exact hts hqb (hb ▸ hq)
    | sqlite =>
      have : ts = row.updatedAt := hr.atTs
      rw [this]
      exact hupdated hqb
  have htransitions : ∀ r ∈ s₁.transitionFile, Encodable r.chars := by
    rw [hs₁.transitionFile]
    exact hs.transitions
  obtain ⟨s₂, h₂, hkept, hencodable, hrows⟩ :=
    run_appendTransition hq htransitions (hr.chars hwritable howner) htime
  have hstatus₂ : q.status s₂ = Function.update (q.status s) row.jobId (some row.status) :=
    (status_congr hkept.file hkept.table).trans hs₁.status
  have hrows₁ := (listTransitions_congr (q := q) hs₁.transitionFile hs₁.transitionTable).2
  rw [hrows₁] at hrows
  refine ⟨s₂, ⟨hkept.tidy hs₁.tidy, ?_, hencodable, ?_⟩, hstatus₂, ?_⟩
  · intro jobId r' hr'
    rw [hstatus₂] at hr'
    by_cases hid : jobId = row.jobId
    · rw [hid, Function.update_self] at hr'
      rw [← Option.some.inj hr']
      exact hwritable.leaseOwner
    · rw [Function.update_of_ne hid] at hr'
      exact hs.owners jobId r' hr'
  · exact told_of_append hs.told hold hstatus₂ hrows hr
  · have hkeep : ¬(fromState = toState ∧ reason ≠ str "heartbeat") := by
      rintro ⟨heq, hne⟩
      exact hr.kept.elim (fun h => h heq) hne
    have hrecord : run (recordTransition q row fromState toState reason workerId ts metadata) s₁ =
        (.ok (), s₂) := by
      unfold recordTransition
      rw [hq]
      dsimp only
      rw [if_neg hkeep]
      exact h₂
    rw [run_bind_of_ok h]
    exact run_bind_of_ok hrecord

/-! ### The calls -/

theorem text_ne_of_held {a b : JobState} (ha : a.held = true) (hb : b.held = false) :
    a.text ≠ b.text := by
  cases a <;> cases b <;> first | (cases ha; done) | (cases hb; done) | decide

theorem encodable_text (s : JobState) : Encodable s.text := by
  cases s <;> exact encodable_of_ascii (by decide)

def stateText (old : Option (Job T P.Obj)) : Str :=
  (old.map fun o => o.state.text).getD []

theorem encodable_stateText (old : Option (Job T P.Obj)) : Encodable (stateText old) := by
  cases old with
  | none => exact encodable_nil
  | some o => exact encodable_text o.state

theorem tells {reason workerId : Str} {metadata : List (Str × MetaValue T)}
    (hfirst : old = none → row.state = .queued) (hreason : ∀ c ∈ reason, c < 0x80)
    (hkept : stateText old ≠ row.state.text ∨ reason = str "heartbeat")
    (hstrings : Writable row → (∀ o, old = some o → Encodable o.leaseOwner) →
      Encodable workerId ∧ ∀ m ∈ metadata, Encodable m.1 ∧ Encodable m.2.chars) :
    Tells old row
      ⟨row.jobId, stateText old, row.state.text, reason, workerId, row.updatedAt, metadata⟩ where
  jobId := rfl
  fromState := rfl
  toState := rfl
  first := hfirst
  atTs := rfl
  kept := hkept
  chars hrow hold := by
    obtain ⟨hworker, hmetadata⟩ := hstrings hrow hold
    refine hrow.jobId.append ((encodable_stateText old).append ((encodable_text row.state).append
      ((encodable_of_ascii hreason).append (hworker.append ?_))))
    intro c hc
    obtain ⟨m, hm, hc⟩ := List.mem_flatMap.mp hc
    exact ((hmetadata m hm).1.append (hmetadata m hm).2) c hc

theorem tells_plain {reason : Str} (hfirst : old = none → row.state = .queued)
    (hreason : ∀ c ∈ reason, c < 0x80)
    (hkept : stateText old ≠ row.state.text ∨ reason = str "heartbeat") :
    Tells old row
      ⟨row.jobId, stateText old, row.state.text, reason, [], row.updatedAt, []⟩ :=
  tells hfirst hreason hkept fun _ _ => ⟨encodable_nil, fun _ hm => absurd hm List.not_mem_nil⟩

theorem encodable_num {key : Str} (hkey : ∀ c ∈ key, c < 0x80) (t : T) :
    Encodable (key, MetaValue.num t).1 ∧ Encodable (key, MetaValue.num t).2.chars :=
  ⟨encodable_of_ascii hkey, encodable_nil⟩

theorem encodable_item {key s : Str} (hkey : ∀ c ∈ key, c < 0x80) (hs : Encodable s) :
    Encodable (key, (MetaValue.text s : MetaValue T)).1 ∧
      Encodable (key, (MetaValue.text s : MetaValue T)).2.chars :=
  ⟨encodable_of_ascii hkey, hs⟩

theorem sound_move {s : World P T} {fromState toState reason workerId : Str} {ts : T}
    {metadata : List (Str × MetaValue T)} {p : Program Fault (World P T) α} (hs : Sound q s)
    {backend : Backend} (hq : q.transitions = some backend) (hts : Admitted q ts)
    (hold : q.unchanged old row s)
    (hnan : q.backend = .sqlite → q.clock.isNan row.updatedAt = false → NanFree q.clock row)
    (hr : Tells old row ⟨row.jobId, fromState, toState, reason, workerId, ts, metadata⟩)
    (hp : ∀ s', Sound q s' →
      q.status s' = Function.update (q.status s) row.jobId (some row.status) →
      Sound q (run p s').2) :
    Sound q (run (do
      upsertRow q old row
      recordTransition q row fromState toState reason workerId ts metadata
      p) s).2 := by
  rcases run_move (p := p) hs hq hts hold hnan hr with ⟨e, h⟩ | ⟨s', hs', hstatus, h⟩
  · rw [h]
    exact hs
  · rw [h]
    exact hp s' hs' hstatus

variable {s : World P T} {backend : Backend} {ts : T}

theorem sound_getJob {jobId : Str} {f : Option (Job T P.Obj) → Program Fault (World P T) α}
    (hs : Sound q s) (hnone : q.status s jobId = none → Sound q (run (f none) s).2)
    (hsome : ∀ row, q.unchanged (some row) row s →
      (q.backend = .sqlite → NanFree q.clock row) → Sound q (run (f (some row)) s).2) :
    Sound q (run (getJob q jobId >>= f) s).2 := by
  rw [run_bind, run_getJob]
  cases hrows : q.jobs s with
  | error e => exact hs
  | ok rows =>
    show Sound q (run (f (findJob rows jobId)) s).2
    cases hfind : findJob rows jobId with
    | none =>
      refine hnone ?_
      rw [status_of_jobs hs.tidy hrows, hfind]
      rfl
    | some row =>
      have hmem := mem_of_findJob hfind
      exact hsome row (unchanged_of_listed hs.tidy hrows hmem) fun hb =>
        (hs.tidy.listed hrows).times hb row hmem

theorem sound_enqueue (hs : Sound q s) (hq : q.transitions = some backend) (hts : Admitted q ts)
    (payload : Dict P.Float) (dedupeKey : Str) (maxAttempts : Int) :
    Sound q (run (enqueue q payload dedupeKey maxAttempts ts) s).2 := by
  unfold enqueue
  rw [run_bind, run_ofExcept]
  cases hid : deterministicJobId payload.items dedupeKey with
  | error e => exact hs
  | ok jobId =>
    refine sound_getJob hs (fun hnone => ?_) fun row _ _ => hs
    refine sound_move hs hq hts hnone (fun _ _ => nanFree_of_idle rfl rfl) ?_ fun s' hs' _ => hs'
    refine tells_plain (fun _ => rfl) (by decide) (Or.inl ?_)
    show [] ≠ JobState.queued.text
    decide

theorem sound_recoverRows (hs : Sound q s) (hq : q.transitions = some backend)
    (hts : Admitted q ts) {rows : List (Job T P.Obj)}
    (hrows : ∀ row ∈ rows, q.unchanged (some row) row s) (hdistinct : Distinct rows) :
    Sound q (run (recoverRows q ts rows) s).2 := by
  induction rows generalizing s with
  | nil => exact hs
  | cons row rows ih =>
    have hrest := List.forall_mem_cons.mp hrows
    have hids := List.nodup_cons.mp hdistinct
    unfold recoverRows
    by_cases hstale : stale q ts row = true
    · rw [if_pos hstale]
      refine sound_move hs hq hts hrest.1 (fun _ _ => nanFree_of_idle rfl rfl) ?_ ?_
      · refine tells_plain (fun h => by simp at h) (by decide) (Or.inl ?_)
        have hheld := (Bool.and_eq_true_iff.mp hstale).1
        refine text_ne_of_held hheld ?_
        unfold reclaimed
        dsimp only
        split <;> rfl
      · intro s' hs' hstatus
        have hleft : ∀ r ∈ rows, q.unchanged (some r) r s' := by
          intro r hr
          have hne : r.jobId ≠ (reclaimed ts row).jobId := by
            intro heq
            exact hids.1 (heq ▸ List.mem_map_of_mem hr)
          show q.status s' r.jobId = _
          rw [hstatus, Function.update_of_ne hne]
          exact hrest.2 r hr
        have hnext := ih hs' hleft hids.2
        rw [run_bind]
        cases hrun : run (recoverRows q ts rows) s' with
        | mk x s₁ =>
          rw [hrun] at hnext
          cases x <;> exact hnext
    · rw [if_neg hstale]
      exact ih hs hrest.2 hids.2

theorem sound_recoverOrphans (hs : Sound q s) (hq : q.transitions = some backend)
    (hts : Admitted q ts) : Sound q (run (recoverOrphans q ts) s).2 := by
  unfold recoverOrphans listJobs
  rw [run_bind, run_read]
  cases hrows : q.jobs s with
  | error e => exact hs
  | ok rows =>
    exact sound_recoverRows hs hq hts
      (fun row hrow => unchanged_of_listed hs.tidy hrows hrow) (hs.tidy.listed hrows).distinct

theorem sound_retry (hs : Sound q s) (hq : q.transitions = some backend) (hts : Admitted q ts)
    (jobId : Str) : Sound q (run (retry q jobId ts) s).2 := by
  refine sound_getJob hs (fun _ => hs) fun row hold _ => ?_
  dsimp only
  split
  · exact hs
  · next hstate =>
    split
    · exact hs
    · refine sound_move hs hq hts hold (fun _ _ => nanFree_of_idle rfl rfl) ?_ fun s' hs' _ => hs'
      refine tells_plain (fun h => by simp at h) (by decide) (Or.inl fun h => hstate ?_)
      have h : row.state.text = JobState.queued.text := h
      cases hcase : row.state <;> rw [hcase] at h <;> first | decide | exact absurd h (by decide)

theorem sound_leaseNext (hs : Sound q s) (hq : q.transitions = some backend) (hts : Admitted q ts)
    (workerId : Str) : Sound q (run (leaseNext q workerId ts) s).2 := by
  have hrecover := sound_recoverOrphans hs hq hts
  unfold leaseNext
  rw [run_bind]
  cases hrun : run (recoverOrphans q ts) s with
  | mk x s₁ =>
    rw [hrun] at hrecover
    cases x with
    | error e => exact hrecover
    | ok recovered =>
      dsimp only
      unfold listJobs
      rw [run_bind, run_read]
      cases hrows : q.jobs s₁ with
      | error e => exact hrecover
      | ok rows =>
        dsimp only
        cases hfind : rows.find? fun row => row.state = .queued with
        | none => exact hrecover
        | some row =>
          have hqueued := List.find?_some hfind
          rw [decide_eq_true_eq] at hqueued
          dsimp only
          rw [run_bind, run_ofExcept]
          cases hexpires : q.clock.expiresAt ts with
          | error e => exact hrecover
          | ok expires =>
            have hexpires := expiresAt_eq_ok.mp hexpires
            have hold := unchanged_of_listed hrecover.tidy hrows (List.mem_of_find?_eq_some hfind)
            refine sound_move hrecover hq hts hold
              (fun _ hts => nanFree_of_lease hexpires rfl rfl hts) ?_ fun s' hs' _ => hs'
            refine tells (fun h => by simp at h) (by decide) (Or.inl ?_) fun hrow _ => ?_
            · show row.state.text ≠ JobState.leased.text
              rw [hqueued]
              decide
            · refine ⟨hrow.leaseOwner, fun m hm => ?_⟩
              rcases List.mem_cons.mp hm with rfl | hm
              · exact encodable_num (by decide) expires
              · rw [List.mem_singleton.mp hm]
                exact encodable_item (by decide) hrow.leaseId

theorem sound_markRunning (hs : Sound q s) (hq : q.transitions = some backend)
    (hts : Admitted q ts) (jobId workerId : Str) :
    Sound q (run (markRunning q jobId workerId ts) s).2 := by
  refine sound_getJob hs (fun _ => hs) fun row hold hnan => ?_
  dsimp only
  split
  · exact hs
  · next hstate =>
    rw [not_or, not_not, not_not] at hstate
    refine sound_move hs hq hts hold (fun hb _ => hnan hb) ?_ fun s' hs' _ => hs'
    refine tells (fun h => by simp at h) (by decide) (Or.inl ?_) fun hrow _ => ?_
    · show row.state.text ≠ JobState.running.text
      rw [hstate.1]
      decide
    · refine ⟨hstate.2 ▸ hrow.leaseOwner, fun m hm => ?_⟩
      rw [List.mem_singleton.mp hm]
      exact encodable_item (by decide) hrow.leaseId

theorem sound_heartbeat (hs : Sound q s) (hq : q.transitions = some backend)
    (hts : Admitted q ts) (jobId workerId : Str) :
    Sound q (run (heartbeat q jobId workerId ts) s).2 := by
  refine sound_getJob hs (fun _ => hs) fun row hold _ => ?_
  dsimp only
  split
  · exact hs
  · next hstate =>
    rw [not_or, not_not] at hstate
    rw [run_bind, run_ofExcept]
    cases hexpires : q.clock.expiresAt ts with
    | error e => exact hs
    | ok expires =>
      have hexpires := expiresAt_eq_ok.mp hexpires
      refine sound_move hs hq hts hold (fun _ hts => nanFree_of_lease hexpires rfl rfl hts) ?_
        fun s' hs' _ => hs'
      refine tells (fun h => by simp at h) (by decide) (Or.inr rfl) fun hrow _ => ?_
      refine ⟨hstate.2 ▸ hrow.leaseOwner, fun m hm => ?_⟩
      rw [List.mem_singleton.mp hm]
      exact encodable_num (by decide) expires

theorem sound_complete (hs : Sound q s) (hq : q.transitions = some backend) (hts : Admitted q ts)
    (jobId state workerId error : Str) :
    Sound q (run (complete q jobId state workerId error ts) s).2 := by
  unfold complete
  cases hterminal : terminalState state with
  | none => exact hs
  | some terminal =>
    refine sound_getJob hs (fun _ => hs) fun row hold _ => ?_
    dsimp only
    split
    · exact hs
    split
    · exact hs
    · next hheld =>
      rw [Bool.not_eq_true', Bool.not_eq_false] at hheld
      split
      · exact hs
      · next hworker =>
        refine sound_move hs hq hts hold (fun _ _ => nanFree_of_idle rfl rfl) ?_ fun s' hs' _ => hs'
        refine tells (fun h => by simp at h) (by decide) (Or.inl ?_) fun hrow hold => ?_
        · refine text_ne_of_held hheld ?_
          rcases terminalState_eq_some hterminal with rfl | rfl <;> rfl
        · constructor
          · by_cases hnil : workerId = []
            · exact hnil ▸ encodable_nil
            · have howner : row.leaseOwner = workerId := by
                by_contra hne
                exact hworker ⟨hnil, hne⟩
              exact howner ▸ hold row rfl
          · intro m hm
            rw [List.mem_singleton.mp hm]
            exact encodable_item (by decide) hrow.error

theorem sound_callStep (hs : Sound q s) (hq : q.transitions = some backend) (call : Call P T)
    (hts : Admitted q call.ts) : Sound q (callStep q s call) := by
  unfold callStep
  cases call <;> unfold Call.program <;> dsimp only <;> rw [run_bind_pure]
  case enqueue payload dedupeKey maxAttempts ts =>
    exact sound_enqueue hs hq hts payload dedupeKey maxAttempts
  case recoverOrphans ts => exact sound_recoverOrphans hs hq hts
  case retry jobId ts => exact sound_retry hs hq hts jobId
  case leaseNext workerId ts => exact sound_leaseNext hs hq hts workerId
  case markRunning jobId workerId ts => exact sound_markRunning hs hq hts jobId workerId
  case heartbeat jobId workerId ts => exact sound_heartbeat hs hq hts jobId workerId
  case complete jobId state workerId error ts =>
    exact sound_complete hs hq hts jobId state workerId error

theorem sound_run (hs : Sound q s) (hq : q.transitions = some backend) {calls : List (Call P T)}
    (hts : ∀ call ∈ calls, Admitted q call.ts) : Sound q (calls.foldl (callStep q) s) := by
  induction calls generalizing s with
  | nil => exact hs
  | cons call calls ih =>
    have h := List.forall_mem_cons.mp hts
    exact ih (sound_callStep hs hq call h.1) h.2

/-- The transitions tell the story of the queue, if no time is `NaN` or the queue and the ledger are
not a JSON file and an SQLite table. -/
theorem told_run (q : Config T) (hq : q.transitions = some backend) (calls : List (Call P T))
    (hts : q.backend = .json → backend = .sqlite →
      ∀ call ∈ calls, q.clock.isNan call.ts = false) : Told q (calls.foldl (callStep q) {}) := by
  refine (sound_run sound_empty hq fun call hcall hjson hsqlite => ?_).told
  exact hts hjson (Option.some.inj (hq.symm.trans hsqlite)) call hcall

def mixedQueue : Config (Option Int) where
  clock := .seconds 30
  backend := .json
  transitions := some .sqlite

def plainCalls : List (Call reference (Option Int)) :=
  [.enqueue emptyPayload [] 3 (some 0), .leaseNext (str "a") (some 1)]

theorem told_run_plainCalls : Told mixedQueue (plainCalls.foldl (callStep mixedQueue) {}) := by
  refine told_run mixedQueue rfl plainCalls fun _ _ => ?_
  unfold plainCalls
  simp [Call.ts, mixedQueue, Clock.seconds]

theorem run_enqueue_nan (hb : q.backend = .json) (hq : q.transitions = some .sqlite)
    (hnan : q.clock.isNan ts = true) {jobId : Str}
    (hid : deterministicJobId (P := P) [] [] = .ok jobId) :
    run (enqueue q emptyPayload [] 3 ts) ({} : World P T) =
      (.error .integrityError, { file := [newRow jobId (.dict []) [] 3 ts] }) := by
  have hupsert := run_upsertRow_empty hb 3 ts hid
  have hrecord : run (recordTransition q (newRow jobId (.dict []) [] 3 ts) []
      JobState.queued.text (str "enqueue") [] ts [])
        ({ file := [newRow jobId (.dict []) [] 3 ts] } : World P T) =
      (.error .integrityError, { file := [newRow jobId (.dict []) [] 3 ts] }) := by
    have htells : Tells none (newRow (P := P) jobId (.dict []) [] 3 ts)
        ⟨jobId, [], JobState.queued.text, str "enqueue", [], ts, []⟩ :=
      tells_plain (fun _ => rfl) (by decide)
        (Or.inl (by show [] ≠ JobState.queued.text; decide))
    have hchars : Encodable (Transition.mk jobId [] JobState.queued.text (str "enqueue") [] ts
        []).chars :=
      htells.chars ⟨encodable_jobId hid, encodable_nil, encodable_nil, encodable_nil⟩
        fun _ h => by cases h
    have hencode : (encode (Transition.mk jobId [] JobState.queued.text (str "enqueue") [] ts
        []).chars).isNone = false := by
      rw [← Option.not_isSome, isSome_encode_iff.mpr hchars]
      rfl
    unfold recordTransition
    rw [hq]
    dsimp only
    rw [if_neg (by decide)]
    unfold appendTransition
    dsimp only
    rw [run_atomic]
    show (if (encode (Transition.mk jobId [] JobState.queued.text (str "enqueue") [] ts
        []).chars).isNone = true then _ else _) = _
    rw [hencode, if_neg Bool.false_ne_true, if_pos hnan]
  rw [run_enqueue_empty hid]
  exact (run_bind_of_ok hupsert).trans (run_bind_of_error hrecord)

theorem not_told_of_nan (hb : q.backend = .json) (hq : q.transitions = some .sqlite)
    (hnan : q.clock.isNan ts = true) {jobId : Str}
    (hid : deterministicJobId (P := P) [] [] = .ok jobId) :
    ¬Told q (callStep q ({} : World P T) (.enqueue emptyPayload [] 3 ts)) := by
  have hrun : callStep q ({} : World P T) (.enqueue emptyPayload [] 3 ts) =
      { file := [newRow jobId (.dict []) [] 3 ts] } := by
    show (run (enqueue q emptyPayload [] 3 ts >>= _) {}).2 = _
    rw [run_bind_of_error (run_enqueue_nan hb hq hnan hid)]
  intro htold
  rw [hrun] at htold
  have hstatus : q.status ({ file := [newRow jobId (.dict []) [] 3 ts] } : World P T) jobId =
      some (newRow (P := P) jobId (.dict []) [] 3 ts).status := by
    rw [status_of_json hb, findJob_cons]
    exact congrArg _ (if_pos rfl)
  have hfirst := (htold.path jobId _ hstatus).first
  unfold listTransitions Config.transitionRows at hfirst
  rw [hq] at hfirst
  cases hfirst

theorem not_told_nan : ¬Told mixedQueue
    (callStep mixedQueue ({} : World reference (Option Int)) (.enqueue emptyPayload [] 3 none)) := by
  obtain ⟨jobId, hid⟩ := exists_jobId reference
  exact not_told_of_nan rfl rfl rfl hid

end Adaad.JobQueue
