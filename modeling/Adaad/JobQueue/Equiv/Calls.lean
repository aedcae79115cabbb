import Adaad.JobQueue.Equiv.Steps
import Adaad.Py.Reference

/-!
# Each call, step by step

`Call.tracks`: a step of a call that finds what it expects moves at most one job along its life.
`Call.steady`: a call that runs alone finds what it expects, since what it has read is still there
when it writes; in the loop of `recover_orphans` this is because the job ids are distinct.
-/

namespace Adaad.JobQueue

open Py Program

variable {P : Platform} {T α : Type} {q : Config T} {g g' : Known}
  {Q : Known → Except Fault α → Prop} {old : Option (Job T P.Obj)} {row : Job T P.Obj}

/-! ### A job is moved -/

theorem Does.move {s s' : World P T} (hold : q.status s row.jobId = old.map Job.status)
    (hnew : q.status s' = Function.update (q.status s) row.jobId (some row.status))
    (hstep : JobStep (old.map Job.status) row.status) :
    Does q g s s' { g with present := row.jobId :: g.present } where
  moves := .job _ _ hold hstep hnew
  leases := Or.inl rfl
  present id hid := by
    rcases List.mem_cons.mp hid with rfl | hid
    · refine Or.inr ?_
      rw [hnew, Function.update_self]
      rfl
    · exact Or.inl hid

theorem Does.lease {s s' : World P T} {o : Job T P.Obj}
    (hold : q.status s row.jobId = some o.status)
    (hnew : q.status s' = Function.update (q.status s) row.jobId (some row.status))
    (hstep : JobStep (some o.status) row.status) (hqueued : o.state = .queued)
    (hleased : row.state = .leased) :
    Does q g s s'
      { leases := g.leases ++ [(row.jobId, row.attemptCount)]
        present := row.jobId :: g.present } where
  moves := .job _ _ hold hstep hnew
  leases := by
    have hafter : q.status s' row.jobId = some row.status := by rw [hnew, Function.update_self]
    refine Or.inr ⟨row.jobId, ⟨?_, ?_⟩, ?_⟩
    · unfold Jobs.state
      rw [hold, Option.map_some, status_state, hqueued]
      simp
    · unfold Jobs.state
      rw [hafter, Option.map_some, status_state, hleased]
    · unfold Jobs.attempts
      rw [hafter]
      rfl
  present := by
    have hold' : q.status s row.jobId = (some o).map Job.status := hold
    exact (Does.move (g := g) hold' hnew hstep).present

theorem tracks_move {fromState toState reason workerId : Str} {ts : T}
    {metadata : List (Str × MetaValue T)} {p : Program Fault (World P T) α}
    (hnan : q.backend = .sqlite → q.clock.isNan row.updatedAt = false → NanFree q.clock row)
    (hdoes : ∀ s s' : World P T, q.status s row.jobId = old.map Job.status →
      q.status s' = Function.update (q.status s) row.jobId (some row.status) → Does q g s s' g')
    (herror : ∀ e, Q g (.error e) ∧ Q g' (.error e)) (hp : CallTracks q Q g' p) :
    CallTracks q Q g (do
      upsertRow q old row
      recordTransition q row fromState toState reason workerId ts metadata
      p) := by
  refine Tracks.bind (Q := fun g₁ x => g₁ = match x with | .ok () => g' | .error _ => g) ?_ ?_ ?_
  · exact tracks_upsertRow hnan (fun s s' hold hnew => ⟨hdoes s s' hold hnew, rfl⟩) fun e => rfl
  · intro g₁ _ hg₁
    rw [hg₁]
    refine Tracks.bind (Q := fun g₂ _ => g₂ = g') (tracks_recordTransition fun _ => rfl) ?_ ?_
    · intro g₂ _ hg₂
      rw [hg₂]
      exact hp
    · intro g₂ e hg₂
      rw [hg₂]
      exact (herror e).2
  · intro g₁ e hg₁
    rw [hg₁]
    exact (herror e).1

theorem tracks_jobStep {fromState toState reason workerId : Str} {ts : T}
    {metadata : List (Str × MetaValue T)} {p : Program Fault (World P T) α}
    (hnan : q.backend = .sqlite → q.clock.isNan row.updatedAt = false → NanFree q.clock row)
    (hstep : JobStep (old.map Job.status) row.status)
    (herror : ∀ e, Q g (.error e) ∧ Q { g with present := row.jobId :: g.present } (.error e))
    (hp : CallTracks q Q { g with present := row.jobId :: g.present } p) :
    CallTracks q Q g (do
      upsertRow q old row
      recordTransition q row fromState toState reason workerId ts metadata
      p) :=
  tracks_move hnan (fun _ _ hold hnew => Does.move hold hnew hstep) herror hp

theorem nanFree_of_idle (hexpires : row.leaseExpiresAt = none) (hheartbeat : row.heartbeatAt = none) :
    NanFree q.clock row := by
  intro t ht
  rw [hexpires, hheartbeat] at ht
  exact ht.elim (fun h => by cases h) fun h => by cases h

theorem nanFree_of_lease {ts expires : T} (h : q.clock.expires ts = some expires)
    (hexpires : row.leaseExpiresAt = some expires) (hheartbeat : row.heartbeatAt = some ts)
    (hts : q.clock.isNan ts = false) : NanFree q.clock row := by
  intro t ht
  rw [hexpires, hheartbeat] at ht
  rcases ht with ht | ht
  · rw [← Option.some.inj ht]
    exact q.clock.isNan_expires ts expires h hts
  · rw [← Option.some.inj ht]
    exact hts

theorem expiresAt_eq_ok {c : Clock T} {ts t : T} :
    c.expiresAt ts = .ok t ↔ c.expires ts = some t := by
  unfold Clock.expiresAt
  cases c.expires ts with
  | none => exact iff_of_false (fun h => by cases h) fun h => by cases h
  | some u => exact ⟨fun h => congrArg some (Except.ok.inj h), fun h => congrArg _ (Option.some.inj h)⟩

/-! ### What a call makes of a job -/

theorem jobStep_reclaimed {ts : T} (h : stale q ts row = true) :
    JobStep (some row.status) (reclaimed ts row).status := by
  have hheld := (Bool.and_eq_true_iff.mp h).1
  have hstate : (reclaimed ts row).state = .quarantined ∨ (reclaimed ts row).state = .queued ∧
      row.attemptCount < row.maxAttempts := by
    unfold reclaimed
    by_cases hle : row.maxAttempts ≤ row.attemptCount
    · exact Or.inl (if_pos hle)
    · exact Or.inr ⟨if_neg hle, by omega⟩
  refine .release hheld ?_ ?_ rfl rfl ⟨rfl, rfl⟩
  · rcases hstate with hstate | ⟨hstate, -⟩ <;> rw [status_state, hstate] <;> rfl
  · intro hqueued
    rcases hstate with hstate | ⟨-, hlt⟩
    · rw [status_state, hstate] at hqueued
      cases hqueued
    · exact hlt

theorem jobStep_retried (hstate : ¬(row.state ≠ .failed ∧ row.state ≠ .quarantined))
    (hleft : ¬row.maxAttempts ≤ row.attemptCount) (ts : T) :
    JobStep (some row.status) (Job.status { row with
      state := .queued, leaseOwner := [], leaseExpiresAt := none, heartbeatAt := none,
      updatedAt := ts, error := [] }) := by
  refine .retry ?_ rfl (by simpa using hleft) rfl rfl ⟨rfl, rfl⟩
  show row.state = .failed ∨ row.state = .quarantined
  tauto

theorem jobStep_leased (hqueued : row.state = .queued) (workerId leaseId : Str) (ts expires : T) :
    JobStep (some row.status) (Job.status { row with
      state := .leased, leaseOwner := workerId, attemptCount := row.attemptCount + 1, leaseId,
      heartbeatAt := some ts, leaseExpiresAt := some expires, updatedAt := ts }) :=
  .lease hqueued rfl rfl rfl rfl

theorem jobStep_started (hleased : row.state = .leased) (ts : T) :
    JobStep (some row.status) (Job.status { row with state := .running, updatedAt := ts }) :=
  .hold (held_iff.mpr (Or.inl hleased)) rfl (fun _ => hleased) rfl rfl fun h => h

theorem jobStep_beaten (hheld : row.state.held = true) (ts expires : T) :
    JobStep (some row.status) (Job.status { row with
      heartbeatAt := some ts, leaseExpiresAt := some expires, updatedAt := ts }) :=
  .hold hheld hheld (fun h => h) rfl rfl fun _ => rfl

theorem terminalState_eq_some {state : Str} {terminal : JobState}
    (h : terminalState state = some terminal) : terminal = .succeeded ∨ terminal = .failed := by
  unfold terminalState at h
  split at h
  · exact Or.inl (Option.some.inj h).symm
  split at h
  · exact Or.inr (Option.some.inj h).symm
  · cases h

theorem jobStep_completed {state : Str} {terminal : JobState}
    (hterminal : terminalState state = some terminal) (hheld : row.state.held = true) (error : Str)
    (ts : T) :
    JobStep (some row.status) (Job.status { row with
      state := terminal, error, leaseOwner := [], leaseExpiresAt := none, heartbeatAt := none,
      updatedAt := ts }) := by
  refine .release hheld ?_ (fun h => ?_) rfl rfl ⟨rfl, rfl⟩
  · rcases terminalState_eq_some hterminal with rfl | rfl <;> rfl
  · have h : terminal = .queued := h
    rcases terminalState_eq_some hterminal with rfl | rfl <;> cases h

/-! ### The calls -/

/-- A job that was looked up is known to be there, and else nothing is known. -/
def Looked (g : Known) : Except Fault (Option (Job T P.Obj)) → Prop
  | .ok (some row) => row.jobId ∈ g.present
  | _ => g = {}

theorem tracks_enqueue (payload : Dict P.Float) (dedupeKey : Str) (maxAttempts : Int) (ts : T) :
    CallTracks q (fun g x => ∀ row, x = .ok row → row.jobId ∈ g.present) {}
      (enqueue q payload dedupeKey maxAttempts ts) := by
  have herror : ∀ (g : Known) (e : Fault) (row : Job T P.Obj),
      (.error e : Except Fault _) = .ok row → row.jobId ∈ g.present := fun _ _ _ h => by cases h
  refine Tracks.bind (Q := fun g _ => g = {}) (tracks_ofExcept rfl) ?_ fun g e _ => herror g e
  rintro g jobId rfl
  refine Tracks.bind (Q := Looked) ?_ ?_ fun g e _ => herror g e
  · refine tracks_getJob ?_ rfl fun _ => rfl
    rintro row hid -
    exact hid ▸ List.mem_cons_self
  · rintro g (_ | existing) hg
    · refine tracks_jobStep (fun _ _ => nanFree_of_idle rfl rfl) ?_
        (fun e => ⟨herror _ e, herror _ e⟩) ?_
      · exact .enqueue rfl rfl (le_max_left 1 maxAttempts) ⟨rfl, rfl⟩
      · intro row hrow
        rw [← Except.ok.inj hrow]
        exact List.mem_cons_self
    · intro row hrow
      rw [← Except.ok.inj hrow]
      exact hg

theorem tracks_recoverRows (ts : T) (rows : List (Job T P.Obj)) (g : Known) :
    CallTracks q (fun g' _ => g'.leases = g.leases) g (recoverRows q ts rows) := by
  suffices h : ∀ g₀ : Known, g₀.leases = g.leases →
      CallTracks q (fun g' _ => g'.leases = g.leases) g₀ (recoverRows q ts rows) from h g rfl
  induction rows with
  | nil => exact fun g₀ h => h
  | cons row rows ih =>
    intro g₀ hg
    unfold recoverRows
    by_cases hstale : stale q ts row = true
    · rw [if_pos hstale]
      refine tracks_jobStep (fun _ _ => nanFree_of_idle rfl rfl) (jobStep_reclaimed hstale)
        (fun _ => ⟨hg, hg⟩) ?_
      exact Tracks.bind (ih _ hg) (fun g₁ recovered h => h) fun g₁ e h => h
    · rw [if_neg hstale]
      exact ih g₀ hg

theorem tracks_recoverOrphans (ts : T) (g : Known) :
    CallTracks (P := P) q (fun g' _ => g'.leases = g.leases) g (recoverOrphans q ts) := by
  refine Tracks.bind (Q := fun g' _ => g' = g) (tracks_listJobs (fun _ _ => rfl) fun _ => rfl) ?_ ?_
  · rintro g' rows rfl
    exact tracks_recoverRows ts rows g'
  · rintro g' e rfl
    rfl

theorem tracks_retry (jobId : Str) (ts : T) :
    CallTracks (P := P) q (fun _ _ => True) g (retry q jobId ts) := by
  refine Tracks.bind (Q := fun _ _ => True)
    (tracks_getJob (fun _ _ _ => trivial) trivial fun _ => trivial) ?_ fun _ _ h => h
  rintro g (_ | row) -
  · trivial
  · show CallTracks q _ g (if row.state ≠ .failed ∧ row.state ≠ .quarantined then _ else _)
    split
    · trivial
    · next hstate =>
      split
      · trivial
      · next hleft =>
        exact tracks_jobStep (fun _ _ => nanFree_of_idle rfl rfl) (jobStep_retried hstate hleft ts)
          (fun _ => ⟨trivial, trivial⟩) trivial

def Taken (g : Known) (x : Except Fault (Option (Job T P.Obj))) : Prop :=
  ∀ row, x = .ok (some row) → (row.jobId, row.attemptCount) ∈ g.leases

theorem taken_error (g : Known) (e : Fault) : Taken (P := P) (T := T) g (.error e) := by
  intro row h
  cases h

theorem tracks_leaseNext (workerId : Str) (ts : T) :
    CallTracks (P := P) q Taken g (leaseNext q workerId ts) := by
  refine Tracks.bind (tracks_recoverOrphans ts g) ?_ fun g' e _ => taken_error g' e
  intro g recovered _
  refine Tracks.bind (Q := fun g' x => g' = g ∧ ∀ rows, x = .ok rows → Listed q rows)
    (tracks_listJobs ?_ ?_) ?_ fun g' e _ => taken_error g' e
  · intro rows hrows
    refine ⟨rfl, fun rows' h => ?_⟩
    rw [← Except.ok.inj h]
    exact hrows
  · exact fun e => ⟨rfl, fun rows h => by cases h⟩
  intro g₁ rows hg₁
  rw [hg₁.1]
  cases hfind : rows.find? fun row => row.state = .queued with
  | none =>
    intro row h
    cases h
  | some row =>
    have hqueued := List.find?_some hfind
    rw [decide_eq_true_eq] at hqueued
    refine Tracks.bind (Q := fun g₂ x => g₂ = g ∧ x = q.clock.expiresAt ts)
      (tracks_ofExcept ⟨rfl, rfl⟩) ?_ fun g' e _ => taken_error g' e
    intro g₂ expires hg₂
    rw [hg₂.1]
    have hexpires := expiresAt_eq_ok.mp hg₂.2.symm
    refine tracks_move ?_
      (fun s s' hold hnew =>
        Does.lease (o := row) hold hnew (jobStep_leased hqueued _ _ _ _) hqueued rfl)
      (fun e => ⟨taken_error _ e, taken_error _ e⟩) ?_
    · intro _ hts
      exact nanFree_of_lease hexpires rfl rfl hts
    · intro r hr
      rw [← Option.some.inj (Except.ok.inj hr)]
      exact List.mem_append_right _ (List.mem_singleton_self _)

theorem tracks_markRunning (jobId workerId : Str) (ts : T) :
    CallTracks (P := P) q (fun _ _ => True) g (markRunning q jobId workerId ts) := by
  refine Tracks.bind (Q := fun _ x => ∀ row, x = .ok (some row) → q.backend = .sqlite →
    NanFree q.clock row) (tracks_getJob ?_ ?_ ?_) ?_ fun _ _ _ => trivial
  · intro row _ hnan r hr
    rw [← Option.some.inj (Except.ok.inj hr)]
    exact hnan
  · intro row h
    cases h
  · intro e row h
    cases h
  rintro g (_ | row) hrow
  · trivial
  · show CallTracks q _ g (if row.state ≠ .leased ∨ row.leaseOwner ≠ workerId then _ else _)
    split
    · trivial
    · next hstate =>
      rw [not_or, not_not] at hstate
      exact tracks_jobStep (fun hb _ => hrow row rfl hb) (jobStep_started hstate.1 ts)
        (fun _ => ⟨trivial, trivial⟩) trivial

theorem tracks_heartbeat (jobId workerId : Str) (ts : T) :
    CallTracks (P := P) q (fun _ _ => True) g (heartbeat q jobId workerId ts) := by
  refine Tracks.bind (Q := fun _ _ => True)
    (tracks_getJob (fun _ _ _ => trivial) trivial fun _ => trivial) ?_ fun _ _ h => h
  rintro g (_ | row) -
  · trivial
  · show CallTracks q _ g (if !row.state.held ∨ row.leaseOwner ≠ workerId then _ else _)
    split
    · trivial
    · next hstate =>
      rw [not_or, Bool.not_eq_true', Bool.not_eq_false] at hstate
      refine Tracks.bind (Q := fun _ x => x = q.clock.expiresAt ts) (tracks_ofExcept rfl) ?_
        fun _ _ _ => trivial
      intro g expires hexpires
      have hexpires := expiresAt_eq_ok.mp hexpires.symm
      exact tracks_jobStep (fun _ hts => nanFree_of_lease hexpires rfl rfl hts)
        (jobStep_beaten hstate.1 ts expires) (fun _ => ⟨trivial, trivial⟩) trivial

theorem tracks_complete (jobId state workerId error : Str) (ts : T) :
    CallTracks (P := P) q (fun _ _ => True) g (complete q jobId state workerId error ts) := by
  unfold complete
  cases hterminal : terminalState state with
  | none => trivial
  | some terminal =>
    refine Tracks.bind (Q := fun _ _ => True)
      (tracks_getJob (fun _ _ _ => trivial) trivial fun _ => trivial) ?_ fun _ _ h => h
    rintro g (_ | row) -
    · trivial
    · show CallTracks q _ g (if row.state = .succeeded ∨ row.state = .failed then _ else _)
      split
      · trivial
      split
      · trivial
      · next hheld =>
        rw [Bool.not_eq_true', Bool.not_eq_false] at hheld
        split
        · trivial
        · exact tracks_jobStep (fun _ _ => nanFree_of_idle rfl rfl)
            (jobStep_completed hterminal hheld error ts) (fun _ => ⟨trivial, trivial⟩) trivial

theorem Call.tracks (call : Call P T) : CallTracks q (fun _ _ => True) {} (call.program q) := by
  cases call with
  | enqueue payload dedupeKey maxAttempts ts =>
    exact (tracks_enqueue payload dedupeKey maxAttempts ts).bind (fun _ _ _ => trivial)
      fun _ _ _ => trivial
  | recoverOrphans ts =>
    exact (tracks_recoverOrphans ts {}).bind (fun _ _ _ => trivial) fun _ _ _ => trivial
  | retry jobId ts => exact (tracks_retry jobId ts).bind (fun _ _ _ => trivial) fun _ _ _ => trivial
  | leaseNext workerId ts =>
    exact (tracks_leaseNext workerId ts).bind (fun _ _ _ => trivial) fun _ _ _ => trivial
  | markRunning jobId workerId ts =>
    exact (tracks_markRunning jobId workerId ts).bind (fun _ _ _ => trivial) fun _ _ _ => trivial
  | heartbeat jobId workerId ts =>
    exact (tracks_heartbeat jobId workerId ts).bind (fun _ _ _ => trivial) fun _ _ _ => trivial
  | complete jobId state workerId error ts =>
    exact (tracks_complete jobId state workerId error ts).bind (fun _ _ _ => trivial)
      fun _ _ _ => trivial

/-! ### Alone -/

variable {s s' : World P T} {p : Program Fault (World P T) α}

theorem run_getJob (jobId : Str) (s : World P T) :
    run (getJob q jobId) s = ((q.jobs s).map fun rows => findJob rows jobId, s) := by
  unfold getJob listJobs
  rw [run_bind, run_read]
  cases q.jobs s <;> rfl

theorem status_of_getJob {jobId : Str} {found : Option (Job T P.Obj)} (hs : Tidy q s)
    (h : run (getJob q jobId) s = (.ok found, s')) :
    s' = s ∧ q.status s jobId = found.map Job.status := by
  rw [run_getJob] at h
  obtain ⟨hfound, rfl⟩ := Prod.mk.inj h
  cases hrows : q.jobs s with
  | error e =>
    rw [hrows] at hfound
    cases hfound
  | ok rows =>
    rw [hrows] at hfound
    rw [status_of_jobs hs hrows, ← Except.ok.inj hfound]
    exact ⟨rfl, rfl⟩

theorem steady_getJob (jobId : Str) (s : World P T) : Steady (getJob q jobId) s :=
  (steady_read q.jobs s).bind fun _ _ _ => trivial

theorem steady_upsertRow (h : q.unchanged old row s) : Steady (upsertRow q old row) s := by
  unfold upsertRow
  cases q.backend with
  | sqlite => exact steady_atomic h
  | json => exact ⟨trivial, ⟨rfl, h⟩, trivial⟩

/-- What appending a transition leaves as it is. -/
structure QueueKept (s s' : World P T) : Prop where
  file : s'.file = s.file
  table : s'.table = s.table

theorem QueueKept.tidy (h : QueueKept s s') (hs : Tidy q s) : Tidy q s' where
  file := h.file ▸ hs.file
  table := h.table ▸ hs.table
  times := h.table ▸ hs.times

theorem steady_appendTransition (backend : Backend) (row : Transition T) (s : World P T) :
    Steady (appendTransition q.clock backend row) s ∧
      QueueKept s (run (appendTransition q.clock backend row) s).2 := by
  cases backend with
  | sqlite =>
    refine ⟨steady_atomic trivial, ?_⟩
    unfold appendTransition
    rw [run_atomic]
    split
    · exact ⟨rfl, rfl⟩
    split
    · exact ⟨rfl, rfl⟩
    · exact ⟨rfl, rfl⟩
  | json =>
    refine ⟨⟨trivial, trivial, trivial⟩, ?_⟩
    unfold appendTransition
    dsimp only
    rw [run_bind, run_read]
    dsimp only
    rw [run_atomic]
    split
    · exact ⟨rfl, rfl⟩
    · exact ⟨rfl, rfl⟩

theorem steady_recordTransition (row : Job T P.Obj) (fromState toState reason workerId : Str)
    (ts : T) (metadata : List (Str × MetaValue T)) (s : World P T) :
    Steady (recordTransition q row fromState toState reason workerId ts metadata) s ∧
      QueueKept s (run (recordTransition q row fromState toState reason workerId ts metadata) s).2 := by
  unfold recordTransition
  split
  · exact ⟨trivial, rfl, rfl⟩
  · split
    · exact ⟨trivial, rfl, rfl⟩
    · exact steady_appendTransition _ _ s

theorem steady_move {fromState toState reason workerId : Str} {ts : T}
    {metadata : List (Str × MetaValue T)} (hs : Tidy q s) (hold : q.unchanged old row s)
    (hnan : q.backend = .sqlite → q.clock.isNan row.updatedAt = false → NanFree q.clock row)
    (hp : ∀ s', Tidy q s' →
      q.status s' = Function.update (q.status s) row.jobId (some row.status) → Steady p s') :
    Steady (do
      upsertRow q old row
      recordTransition q row fromState toState reason workerId ts metadata
      p) s := by
  refine (steady_upsertRow hold).bind fun _ s₁ h₁ => ?_
  rcases run_upsertRow hs old hnan with ⟨e, h⟩ | ⟨s₂, h, hs₂⟩
  · rw [h] at h₁
    cases h₁
  · obtain rfl : s₂ = s₁ := (Prod.mk.inj (h.symm.trans h₁)).2
    obtain ⟨hsteady, hkept⟩ :=
      steady_recordTransition (q := q) row fromState toState reason workerId ts metadata s₂
    refine hsteady.bind fun _ s₃ h₃ => ?_
    rw [h₃] at hkept
    exact hp s₃ (hkept.tidy hs₂.tidy) ((status_congr hkept.file hkept.table).trans hs₂.status)

theorem steady_last {fromState toState reason workerId : Str} {ts : T}
    {metadata : List (Str × MetaValue T)} (hold : q.unchanged old row s)
    (hp : ∀ s', Steady p s') :
    Steady (do
      upsertRow q old row
      recordTransition q row fromState toState reason workerId ts metadata
      p) s := by
  refine (steady_upsertRow hold).bind fun _ s₁ _ => ?_
  refine (steady_recordTransition row fromState toState reason workerId ts metadata s₁).1.bind ?_
  exact fun _ s₂ _ => hp s₂

theorem found_of_getJob {jobId : Str} (hs : Tidy q s)
    (h : run (getJob q jobId) s = (.ok (some row), s')) :
    s' = s ∧ q.unchanged (some row) row s := by
  obtain ⟨rfl, hstatus⟩ := status_of_getJob hs h
  have hid : row.jobId = jobId := by
    rw [Option.map_some, status_eq_findJob] at hstatus
    rw [← status_jobId]
    exact jobId_of_findJob hstatus
  refine ⟨rfl, ?_⟩
  show q.status s' row.jobId = _
  rw [hid]
  exact hstatus

theorem steady_enqueue (hs : Tidy q s) (payload : Dict P.Float) (dedupeKey : Str)
    (maxAttempts : Int) (ts : T) : Steady (enqueue q payload dedupeKey maxAttempts ts) s := by
  refine (steady_ofExcept _ s).bind fun jobId s₁ h₁ => ?_
  obtain rfl : s = s₁ := (Prod.mk.inj h₁).2
  refine (steady_getJob jobId s).bind fun found s₂ h₂ => ?_
  cases found with
  | some existing => trivial
  | none =>
    obtain ⟨rfl, hnone⟩ := status_of_getJob hs h₂
    exact steady_last hnone fun _ => trivial

theorem steady_recoverRows (ts : T) {rows : List (Job T P.Obj)} (hs : Tidy q s)
    (hrows : ∀ row ∈ rows, q.unchanged (some row) row s) (hdistinct : Distinct rows) :
    Steady (recoverRows q ts rows) s := by
  induction rows generalizing s with
  | nil => trivial
  | cons row rows ih =>
    have hrest := List.forall_mem_cons.mp hrows
    have hids := List.nodup_cons.mp hdistinct
    unfold recoverRows
    by_cases hstale : stale q ts row = true
    · rw [if_pos hstale]
      refine steady_move hs hrest.1 (fun _ _ => nanFree_of_idle rfl rfl) fun s' hs' hstatus => ?_
      refine (ih hs' (fun r hr => ?_) hids.2).bind fun _ _ _ => trivial
      -- the rows that are left are those of other jobs
      have hne : r.jobId ≠ (reclaimed ts row).jobId := by
        intro heq
        exact hids.1 (heq ▸ List.mem_map_of_mem hr)
      show q.status s' r.jobId = _
      rw [hstatus, Function.update_of_ne hne]
      exact hrest.2 r hr
    · rw [if_neg hstale]
      exact ih hs hrest.2 hids.2

theorem unchanged_of_listed (hs : Tidy q s) {rows : List (Job T P.Obj)} (h : q.jobs s = .ok rows)
    (hrow : row ∈ rows) : q.unchanged (some row) row s := by
  show q.status s row.jobId = _
  rw [status_of_jobs hs h]
  have hfind := (findJob_eq_some_iff (hs.listed h).distinct).mpr ⟨hrow, rfl⟩
  rw [hfind]

theorem steady_recoverOrphans (hs : Tidy q s) (ts : T) : Steady (recoverOrphans q ts) s := by
  refine (steady_read q.jobs s).bind fun rows s' h => ?_
  obtain ⟨hrows, rfl⟩ := Prod.mk.inj h
  exact steady_recoverRows ts hs (fun row hrow => unchanged_of_listed hs hrows hrow)
    (hs.listed hrows).distinct

theorem steady_retry (hs : Tidy q s) (jobId : Str) (ts : T) : Steady (retry q jobId ts) s := by
  refine (steady_getJob jobId s).bind fun found s' h => ?_
  cases found with
  | none => trivial
  | some row =>
    obtain ⟨rfl, hold⟩ := found_of_getJob hs h
    show Steady (if row.state ≠ .failed ∧ row.state ≠ .quarantined then _ else _) s'
    split
    · trivial
    split
    · trivial
    · exact steady_last hold fun _ => trivial

theorem steady_leaseNext (hs : Tidy q s) (workerId : Str) (ts : T) :
    Steady (leaseNext q workerId ts) s := by
  have hrecover := steady_recoverOrphans hs ts
  refine hrecover.bind fun recovered s₁ h₁ => ?_
  have hs₁ : Tidy q s₁ := by
    have := (tracks_recoverOrphans ts {}).run hs hrecover
    rwa [h₁] at this
  refine (steady_read q.jobs s₁).bind fun rows s₂ h₂ => ?_
  obtain ⟨hrows, rfl⟩ := Prod.mk.inj h₂
  cases hfind : rows.find? fun row => row.state = .queued with
  | none => trivial
  | some row =>
    refine (steady_ofExcept _ s₁).bind fun expires s₃ h₃ => ?_
    obtain rfl : s₁ = s₃ := (Prod.mk.inj h₃).2
    have hold := unchanged_of_listed hs₁ hrows (List.mem_of_find?_eq_some hfind)
    exact steady_last hold fun _ => trivial

theorem steady_markRunning (hs : Tidy q s) (jobId workerId : Str) (ts : T) :
    Steady (markRunning q jobId workerId ts) s := by
  refine (steady_getJob jobId s).bind fun found s' h => ?_
  cases found with
  | none => trivial
  | some row =>
    obtain ⟨rfl, hold⟩ := found_of_getJob hs h
    show Steady (if row.state ≠ .leased ∨ row.leaseOwner ≠ workerId then _ else _) s'
    split
    · trivial
    · exact steady_last hold fun _ => trivial

theorem steady_heartbeat (hs : Tidy q s) (jobId workerId : Str) (ts : T) :
    Steady (heartbeat q jobId workerId ts) s := by
  refine (steady_getJob jobId s).bind fun found s' h => ?_
  cases found with
  | none => trivial
  | some row =>
    obtain ⟨rfl, hold⟩ := found_of_getJob hs h
    show Steady (if !row.state.held ∨ row.leaseOwner ≠ workerId then _ else _) s'
    split
    · trivial
    · refine (steady_ofExcept _ s').bind fun expires s₁ h₁ => ?_
      obtain rfl : s' = s₁ := (Prod.mk.inj h₁).2
      exact steady_last hold fun _ => trivial

theorem steady_complete (hs : Tidy q s) (jobId state workerId error : Str) (ts : T) :
    Steady (complete q jobId state workerId error ts) s := by
  unfold complete
  cases terminalState state with
  | none => trivial
  | some terminal =>
    refine (steady_getJob jobId s).bind fun found s' h => ?_
    cases found with
    | none => trivial
    | some row =>
      obtain ⟨rfl, hold⟩ := found_of_getJob hs h
      show Steady (if row.state = .succeeded ∨ row.state = .failed then _ else _) s'
      split
      · trivial
      split
      · trivial
      split
      · trivial
      · exact steady_last hold fun _ => trivial

theorem Call.steady (hs : Tidy q s) (call : Call P T) : Steady (call.program q) s := by
  cases call with
  | enqueue payload dedupeKey maxAttempts ts =>
    exact (steady_enqueue hs payload dedupeKey maxAttempts ts).bind fun _ _ _ => trivial
  | recoverOrphans ts => exact (steady_recoverOrphans hs ts).bind fun _ _ _ => trivial
  | retry jobId ts => exact (steady_retry hs jobId ts).bind fun _ _ _ => trivial
  | leaseNext workerId ts => exact (steady_leaseNext hs workerId ts).bind fun _ _ _ => trivial
  | markRunning jobId workerId ts =>
    exact (steady_markRunning hs jobId workerId ts).bind fun _ _ _ => trivial
  | heartbeat jobId workerId ts =>
    exact (steady_heartbeat hs jobId workerId ts).bind fun _ _ _ => trivial
  | complete jobId state workerId error ts =>
    exact (steady_complete hs jobId state workerId error ts).bind fun _ _ _ => trivial

/-! ### Into an empty queue -/

theorem encodable_jobId {payload : Members P.Float} {dedupeKey jobId : Str}
    (h : deterministicJobId payload dedupeKey = .ok jobId) : Encodable jobId := by
  unfold deterministicJobId at h
  split at h
  · cases h
  split at h
  · cases h
  · rw [← Except.ok.inj h]
    exact (encodable_of_ascii (by decide)).append (encodable_of_ascii (ascii_sha256 P _))

/-- `{}` -/
def emptyPayload : Dict P.Float := .empty

theorem exists_jobId (P : Platform) : ∃ jobId, deterministicJobId (P := P) [] [] = .ok jobId :=
  ⟨_, rfl⟩

theorem run_enqueue_empty {payload : Dict P.Float} {dedupeKey jobId : Str} {maxAttempts : Int}
    {ts : T} (hid : deterministicJobId payload.items dedupeKey = .ok jobId) :
    run (enqueue q payload dedupeKey maxAttempts ts) ({} : World P T) =
      run (do
        let row := newRow jobId (.dict payload.items) dedupeKey maxAttempts ts
        upsertRow q none row
        recordTransition q row [] JobState.queued.text (str "enqueue") [] ts []
        return row) {} := by
  have hdigest : run (.ofExcept (deterministicJobId payload.items dedupeKey)) ({} : World P T) =
      (.ok jobId, {}) := congrArg (·, _) hid
  have hget : run (getJob q jobId) ({} : World P T) = (.ok none, {}) := by
    rw [run_getJob, Config.jobs]
    cases q.backend <;> rfl
  unfold enqueue
  rw [run_bind_of_ok hdigest, run_bind_of_ok hget]

theorem run_upsertRow_empty (hb : q.backend = .json) (maxAttempts : Int) (ts : T) {jobId : Str}
    (hid : deterministicJobId (P := P) [] [] = .ok jobId) :
    run (upsertRow q none (newRow jobId (.dict []) [] maxAttempts ts)) ({} : World P T) =
      (.ok (), { file := [newRow jobId (.dict []) [] maxAttempts ts] }) := by
  have hsave : saveJson P (q.clock.sorted (upsertInto (newRow jobId (.dict []) [] maxAttempts ts)
      (loadJson P q.clock ({} : World P T)))) = .ok [newRow jobId (.dict []) [] maxAttempts ts] := by
    refine saveJson_eq_ok.mpr ⟨.cons rfl .nil, fun r hr => ?_⟩
    rw [List.mem_singleton.mp hr, isSome_encode_iff]
    exact (encodable_jobId hid).append fun _ hc => absurd hc List.not_mem_nil
  rw [run_upsertRow_of_json hb, saveUpsert, hsave]

end Adaad.JobQueue

/-!
## The invariant of the queue

Whatever calls are made, and whatever they are given, in every state that the store goes through,
those between the steps of a call included, each job is `JobOk`, the job ids are distinct, no job
has left `succeeded`, and no job was leased more often than it has attempts (`jobs_invariant`).
-/

namespace Adaad.JobQueue

open Py Program

variable {P : Platform} {T : Type} (q : Config T)

theorem isChain_history {s : World P T} (hs : Tidy q s) (calls : List (Call P T)) :
    List.IsChain (fun s s' => Moves (q.status s) (q.status s')) (s :: history q s calls) ∧
      ∀ t ∈ history q s calls, Tidy q t := by
  induction calls generalizing s with
  | nil => exact ⟨.singleton s, fun t ht => absurd ht List.not_mem_nil⟩
  | cons call calls ih =>
    have htracks : CallTracks q (fun _ _ => True) {} (call.program q) := call.tracks
    have hsteady := call.steady hs
    obtain ⟨hchain, htidy⟩ := htracks.isChain (fun _ _ _ _ h => h.moves) hs hsteady
    have hnext : Tidy q (callStep q s call) := htracks.run hs hsteady
    obtain ⟨hrest, hall⟩ := ih hnext
    unfold history
    constructor
    · refine hchain.append (List.isChain_cons.mp hrest).2 fun x hx y hy => ?_
      rw [List.getLast?_cons, ← List.getLastD_eq_getLast?, getLastD_trace] at hx
      rw [← Option.some.inj hx]
      exact (List.isChain_cons.mp hrest).1 y hy
    · intro t ht
      exact (List.mem_append.mp ht).elim (htidy t) (hall t)

theorem getLastD_history (s : World P T) (calls : List (Call P T)) :
    (history q s calls).getLastD s = calls.foldl (callStep q) s := by
  induction calls generalizing s with
  | nil => rfl
  | cons call calls ih =>
    rw [List.foldl_cons, ← ih, history, callStep, ← getLastD_trace]
    simp only [List.getLastD_eq_getLast?, List.getLast?_append]
    cases (history q _ calls).getLast? <;> rfl

theorem status_empty (jobId : Str) : q.status ({} : World P T) jobId = none := by
  unfold Config.status
  cases q.backend <;> rfl

theorem jobsOk_of_mem {s : World P T} {ms : List (World P T)}
    (h : List.IsChain (fun s s' => Moves (q.status s) (q.status s')) (s :: ms))
    (hs : JobsOk (q.status s)) : ∀ t ∈ s :: ms, JobsOk (q.status t) := by
  induction ms generalizing s with
  | nil =>
    intro t ht
    rw [List.mem_singleton.mp ht]
    exact hs
  | cons s' ms ih =>
    obtain ⟨hfirst, hrest⟩ := List.isChain_cons_cons.mp h
    intro t ht
    rcases List.mem_cons.mp ht with rfl | ht
    · exact hs
    · exact ih hrest (hfirst.ok hs) t ht

/-- The job invariant. -/
theorem jobs_invariant (calls : List (Call P T)) :
    (∀ s ∈ ({} : World P T) :: history q {} calls,
      (∀ row ∈ q.rows s, JobOk row) ∧ ((q.rows s).map Job.jobId).Nodup) ∧
    List.IsChain (fun s s' => ∀ jobId, Jobs.state (q.status s) jobId = some .succeeded →
      Jobs.state (q.status s') jobId = some .succeeded) (({} : World P T) :: history q {} calls) ∧
    ∀ jobId, leases jobId ((({} : World P T) :: history q {} calls).map q.status) ≤
      ((q.status (calls.foldl (callStep q) {}) jobId).map Job.maxAttempts).getD 0 := by
  obtain ⟨hchain, htidy⟩ := isChain_history q (tidy_empty q) calls
  have hempty : JobsOk (q.status ({} : World P T)) := by
    intro jobId row h
    rw [status_empty] at h
    cases h
  have hok := jobsOk_of_mem q hchain hempty
  refine ⟨fun s hs => ?_, hchain.imp fun s s' h jobId => h.succeeded, fun jobId => ?_⟩
  · have hdistinct : Distinct (q.rows s) := by
      rcases List.mem_cons.mp hs with rfl | hs
      · exact (tidy_empty q).rows
      · exact (htidy s hs).rows
    refine ⟨fun row hrow => hok s hs row.jobId row ?_, hdistinct⟩
    rw [status_eq_findJob]
    exact (findJob_eq_some_iff hdistinct).mpr ⟨hrow, rfl⟩
  · have hmap := List.isChain_map_of_isChain (S := Moves) q.status (fun _ _ h => h) hchain
    have hleases := leases_add_attempts hmap jobId
    have hlast : ((history q ({} : World P T) calls).map q.status).getLastD
        (q.status ({} : World P T)) = q.status (calls.foldl (callStep q) {}) := by
      rw [← getLastD_history]
      exact List.getLastD_map
    rw [hlast] at hleases
    have hnone : Jobs.attempts (q.status ({} : World P T)) jobId = 0 := by
      unfold Jobs.attempts
      rw [status_empty]
      rfl
    rw [hnone, add_zero] at hleases
    rw [List.map_cons, hleases]
    unfold Jobs.attempts
    cases hrow : q.status (calls.foldl (callStep q) ({} : World P T)) jobId with
    | none => exact le_refl 0
    | some row =>
      refine (hok _ ?_ jobId row hrow).attempts
      rw [← getLastD_history]
      exact List.getLastD_mem_cons

end Adaad.JobQueue
