import Adaad.JobQueue.Equiv.Calls
import Adaad.Workers

/-!
# One queue and several workers

Workers that share the files of a queue, with the steps of their calls in any order.  Nothing checks
that what a call has read still stands when it writes.  As long as it does, no job is leased twice
for the same attempt, and no job that was enqueued is lost (`exclusive_run`): a step that finds what
it expects moves at most one job, a lease raises the attempts of its job, and the attempts never go
down.  Calls that are made in turns are such a run (`meets_turns_calls`).

Two calls that both load the queue before either stores lease the same job for the same attempt
(`not_exclusive`).
-/

namespace Adaad.JobQueue

open Py Program Workers

variable {P : Platform} {T ι : Type}

/-- A queue with its workers. -/
abbrev Shared (P : Platform) (T ι : Type) :=
  System ι (Call P T) Fault (World P T) (Reply P T)

/-- The job and the attempt that a call of `lease_next` returned. -/
def granted : Call P T × Except Fault (Reply P T) → List (Str × Int)
  | (.leaseNext _ _, .ok (.row (some row))) => [(row.jobId, row.attemptCount)]
  | _ => []

/-- The job that a call of `enqueue` returned. -/
def enqueued : Call P T × Except Fault (Reply P T) → List Str
  | (.enqueue _ _ _ _, .ok (.row (some row))) => [row.jobId]
  | _ => []

/-- No two calls were given the same job with the same attempt, and every job that was enqueued is
in the queue. -/
structure Exclusive (q : Config T) (σ : Shared P T ι) : Prop where
  leases : (σ.returned.flatMap granted).Nodup
  kept : ∀ jobId ∈ σ.returned.flatMap enqueued, (q.status σ.state jobId).isSome = true

variable {q : Config T} {m m' : Jobs T}

/-! ### What a step leaves -/

theorem Moves.attempts_le (h : Moves m m') (jobId : Str) :
    m.attempts jobId ≤ m'.attempts jobId := by
  rw [h.attempts jobId]
  split <;> omega

theorem Moves.isSome (h : Moves m m') {jobId : Str} (hid : (m jobId).isSome = true) :
    (m' jobId).isSome = true := by
  cases h with
  | quiet h => exact h ▸ hid
  | job old new hold hstep hnew =>
    rw [hnew]
    by_cases heq : jobId = new.jobId
    · rw [heq, Function.update_self]
      rfl
    · rw [Function.update_of_ne heq]
      exact hid

/-! ### What a call tells -/

/-- What a call returns is known from its steps. -/
structure Honest (call : Call P T) (g : Known) (x : Except Fault (Reply P T)) : Prop where
  leases : granted (call, x) ⊆ g.leases
  present : enqueued (call, x) ⊆ g.present

theorem honest_error (call : Call P T) (g : Known) (e : Fault) : Honest call g (.error e) := by
  constructor
  · cases call <;> exact List.nil_subset _
  · cases call <;> exact List.nil_subset _

theorem honest_enqueue {payload : Dict P.Float} {dedupeKey : Str} {maxAttempts : Int} {ts : T}
    {g : Known} {row : Job T P.Obj} (h : row.jobId ∈ g.present) :
    Honest (.enqueue payload dedupeKey maxAttempts ts) g (.ok (.row (some row))) where
  leases := List.nil_subset _
  present := List.cons_subset.mpr ⟨h, List.nil_subset _⟩

theorem honest_leaseNext {workerId : Str} {ts : T} {g : Known} {found : Option (Job T P.Obj)}
    (h : Taken g (.ok found)) : Honest (.leaseNext workerId ts) g (.ok (.row found)) := by
  cases found with
  | none => exact ⟨List.nil_subset _, List.nil_subset _⟩
  | some row => exact ⟨List.cons_subset.mpr ⟨h row rfl, List.nil_subset _⟩, List.nil_subset _⟩

theorem Call.honest (call : Call P T) : CallTracks q (Honest call) {} (call.program q) := by
  cases call with
  | enqueue payload dedupeKey maxAttempts ts =>
    refine (tracks_enqueue payload dedupeKey maxAttempts ts).bind ?_ fun g e _ => honest_error _ g e
    exact fun g row h => honest_enqueue (h row rfl)
  | leaseNext workerId ts =>
    refine (tracks_leaseNext workerId ts).bind ?_ fun g e _ => honest_error _ g e
    exact fun g found h => honest_leaseNext h
  | recoverOrphans ts =>
    refine (tracks_recoverOrphans ts {}).bind ?_ fun g e _ => honest_error _ g e
    exact fun g ids _ => ⟨List.nil_subset _, List.nil_subset _⟩
  | retry jobId ts =>
    refine (tracks_retry jobId ts).bind ?_ fun g e _ => honest_error _ g e
    exact fun g row _ => ⟨List.nil_subset _, List.nil_subset _⟩
  | markRunning jobId workerId ts =>
    refine (tracks_markRunning jobId workerId ts).bind ?_ fun g e _ => honest_error _ g e
    exact fun g b _ => ⟨List.nil_subset _, List.nil_subset _⟩
  | heartbeat jobId workerId ts =>
    refine (tracks_heartbeat jobId workerId ts).bind ?_ fun g e _ => honest_error _ g e
    exact fun g b _ => ⟨List.nil_subset _, List.nil_subset _⟩
  | complete jobId state workerId error ts =>
    refine (tracks_complete jobId state workerId error ts).bind ?_ fun g e _ => honest_error _ g e
    exact fun g b _ => ⟨List.nil_subset _, List.nil_subset _⟩

/-! ### What all calls tell -/

/-- What is known of a call fits the queue. -/
structure Fits (q : Config T) (s : World P T) (g : Known) : Prop where
  nodup : g.leases.Nodup
  attempts : ∀ l ∈ g.leases, l.2 ≤ Jobs.attempts (q.status s) l.1
  present : ∀ jobId ∈ g.present, (q.status s jobId).isSome = true

/-- No lease is known of two calls. -/
structure Apart (q : Config T) (s : World P T) (known : ι → Known) (past : List Known) : Prop where
  running : ∀ i, Fits q s (known i)
  ended : ∀ g ∈ past, Fits q s g
  workers : ∀ i j, i ≠ j → List.Disjoint (known i).leases (known j).leases
  finished : ∀ i, ∀ g ∈ past, List.Disjoint (known i).leases g.leases
  calls : past.Pairwise fun g g' => List.Disjoint g.leases g'.leases

theorem fits_empty (q : Config T) (s : World P T) : Fits q s {} where
  nodup := List.nodup_nil
  attempts _ h := absurd h List.not_mem_nil
  present _ h := absurd h List.not_mem_nil

variable {s s' : World P T} {g g' : Known}

theorem Fits.moves (h : Fits q s g) (hmoves : Moves (q.status s) (q.status s')) : Fits q s' g where
  nodup := h.nodup
  attempts l hl := (h.attempts l hl).trans (hmoves.attempts_le l.1)
  present jobId hid := hmoves.isSome (h.present jobId hid)

theorem Fits.fresh (h : Fits q s g) {jobId : Str}
    (hmoves : Moves (q.status s) (q.status s')) (hlease : Leases jobId (q.status s) (q.status s')) :
    (jobId, Jobs.attempts (q.status s') jobId) ∉ g.leases := by
  intro hmem
  have hle := h.attempts _ hmem
  have hattempts := hmoves.attempts jobId
  rw [if_pos hlease] at hattempts
  dsimp only at hle
  omega

theorem Fits.does (h : Fits q s g) (hdoes : Does q g s s' g') : Fits q s' g' := by
  have hg := h.moves hdoes.moves
  refine ⟨?_, ?_, fun jobId hid => ?_⟩
  · rcases hdoes.leases with heq | ⟨jobId, hlease, heq⟩ <;> rw [heq]
    · exact h.nodup
    · rw [← List.concat_eq_append]
      exact h.nodup.concat (h.fresh hdoes.moves hlease)
  · rcases hdoes.leases with heq | ⟨jobId, hlease, heq⟩ <;> rw [heq]
    · exact hg.attempts
    · intro l hl
      rcases List.mem_append.mp hl with hl | hl
      · exact hg.attempts l hl
      · rw [List.mem_singleton.mp hl]
  · exact (hdoes.present jobId hid).elim (hg.present jobId) fun hsome => hsome

theorem Fits.disjoint {g₁ : Known} (h₁ : Fits q s g₁) (hdoes : Does q g s s' g')
    (hdisjoint : List.Disjoint g.leases g₁.leases) : List.Disjoint g'.leases g₁.leases := by
  rcases hdoes.leases with heq | ⟨jobId, hlease, heq⟩ <;> rw [heq]
  · exact hdisjoint
  · intro l hl hl₁
    rcases List.mem_append.mp hl with hl | hl
    · exact hdisjoint hl hl₁
    · rw [List.mem_singleton.mp hl] at hl₁
      exact h₁.fresh hdoes.moves hlease hl₁

variable [DecidableEq ι] {known : ι → Known} {past : List Known} {i : ι}

theorem Apart.does (h : Apart q s known past) (hdoes : Does q (known i) s s' g') :
    Apart q s' (Function.update known i g') past := by
  have hdisjoint : ∀ j, j ≠ i → List.Disjoint g'.leases (known j).leases := fun j hj =>
    (h.running j).disjoint hdoes (h.workers i j (Ne.symm hj))
  refine ⟨fun j => ?_, fun g hg => (h.ended g hg).moves hdoes.moves, fun j k hjk => ?_,
    fun j g hg => ?_, h.calls⟩
  · by_cases hj : j = i
    · rw [hj, Function.update_self]
      exact (h.running i).does hdoes
    · rw [Function.update_of_ne hj]
      exact (h.running j).moves hdoes.moves
  · by_cases hj : j = i
    · have hk : k ≠ i := fun hk => hjk (hj.trans hk.symm)
      rw [hj, Function.update_self, Function.update_of_ne hk]
      exact hdisjoint k hk
    · rw [Function.update_of_ne hj]
      by_cases hk : k = i
      · rw [hk, Function.update_self]
        exact (hdisjoint j hj).symm
      · rw [Function.update_of_ne hk]
        exact h.workers j k hjk
  · by_cases hj : j = i
    · rw [hj, Function.update_self]
      exact (h.ended g hg).disjoint hdoes (h.finished i g hg)
    · rw [Function.update_of_ne hj]
      exact h.finished j g hg

theorem Apart.return (h : Apart q s known past) (i : ι) :
    Apart q s (Function.update known i {}) (past ++ [known i]) := by
  have hpast : ∀ g ∈ past ++ [known i], Fits q s g := by
    intro g hg
    rcases List.mem_append.mp hg with hg | hg
    · exact h.ended g hg
    · rw [List.mem_singleton.mp hg]
      exact h.running i
  refine ⟨fun j => ?_, hpast, fun j k hjk => ?_, fun j g hg => ?_, ?_⟩
  · by_cases hj : j = i
    · rw [hj, Function.update_self]
      exact fits_empty q s
    · rw [Function.update_of_ne hj]
      exact h.running j
  · by_cases hj : j = i
    · rw [hj, Function.update_self]
      exact List.disjoint_nil_left _
    · rw [Function.update_of_ne hj]
      by_cases hk : k = i
      · rw [hk, Function.update_self]
        exact List.disjoint_nil_right _
      · rw [Function.update_of_ne hk]
        exact h.workers j k hjk
  · by_cases hj : j = i
    · rw [hj, Function.update_self]
      exact List.disjoint_nil_left _
    · rw [Function.update_of_ne hj]
      rcases List.mem_append.mp hg with hg | hg
      · exact h.finished j g hg
      · rw [List.mem_singleton.mp hg]
        exact h.workers j i hj
  · refine List.pairwise_append.mpr ⟨h.calls, List.pairwise_singleton _ _, fun g hg g' hg' => ?_⟩
    rw [List.mem_singleton.mp hg']
    exact (h.finished i g hg).symm

omit [DecidableEq ι] in
theorem apart_start (q : Config T) (s : World P T) :
    Apart q s (fun _ : ι => ({} : Known)) [] where
  running _ := fits_empty q s
  ended _ h := absurd h List.not_mem_nil
  workers _ _ _ := List.disjoint_nil_left _
  finished _ _ h := absurd h List.not_mem_nil
  calls := .nil

/-! ### Runs -/

theorem nodup_granted_call (r : Call P T × Except Fault (Reply P T)) : (granted r).Nodup := by
  unfold granted
  split
  · exact List.nodup_singleton _
  · exact List.nodup_nil

theorem flatMap_subset_of_forall₂ {A B X : Type} {f : A → List X} {f' : B → List X} {as : List A}
    {bs : List B} (h : List.Forall₂ (fun a b => f a ⊆ f' b) as bs) :
    as.flatMap f ⊆ bs.flatMap f' := by
  induction h with
  | nil => exact List.nil_subset _
  | cons hab _ ih =>
    rw [List.flatMap_cons, List.flatMap_cons]
    exact List.append_subset.mpr
      ⟨List.subset_append_of_subset_left _ hab, List.subset_append_of_subset_right _ ih⟩

theorem nodup_granted_calls {returned : List (Call P T × Except Fault (Reply P T))}
    (h : List.Forall₂ (fun r g => Honest r.1 g r.2) returned past)
    (hpast : past.Pairwise fun g g' => List.Disjoint g.leases g'.leases) :
    (returned.flatMap granted).Nodup := by
  induction h with
  | nil => exact List.nodup_nil
  | @cons r g returned past hr hrest ih =>
    obtain ⟨hfirst, hpairs⟩ := List.pairwise_cons.mp hpast
    rw [List.flatMap_cons]
    refine List.nodup_append'.mpr ⟨nodup_granted_call r, ih hpairs, ?_⟩
    intro l hl hl'
    have hsubset := flatMap_subset_of_forall₂ (hrest.imp fun _ _ h => h.leases)
    obtain ⟨g', hg', hmem⟩ := List.mem_flatMap.mp (hsubset hl')
    exact hfirst g' hg' (hr.leases hl) hmem

/-- As long as every store step finds the file that its upsert loaded and the row that its call was
made from, no lease is given twice and no job is lost. -/
theorem exclusive_run (q : Config T) (as : List (Action ι (Call P T)))
    (h : Run.Meets (step (Call.program q)) Finds (System.start ({} : World P T)) as) :
    Run.Always (step (Call.program q)) (Exclusive q) (System.start {}) as := by
  have hstart : Tracked (Tidy q) (Does q) Honest {} (Apart q)
      (System.start ({} : World P T) : Shared P T ι) (fun _ => {}) [] :=
    ⟨tidy_empty q, fun i c p hi => (by cases hi), fun _ _ => rfl, .nil, apart_start q {}⟩
  have halways := always_tracked Call.honest
    (fun s s' known past i g' _ hapart hdoes => hapart.does hdoes)
    (fun s known past i hapart => hapart.return i) hstart h
  refine halways.imp ?_
  rintro σ ⟨known, past, hσ⟩
  refine ⟨nodup_granted_calls hσ.returned hσ.joint.calls, fun jobId hid => ?_⟩
  have hsubset := flatMap_subset_of_forall₂ (hσ.returned.imp fun _ _ h => h.present)
  obtain ⟨g, hg, hmem⟩ := List.mem_flatMap.mp (hsubset hid)
  exact (hσ.joint.ended g hg).present jobId hmem

theorem meets_turns_calls (q : Config T) (calls : List (ι × Call P T)) :
    Run.Meets (step (Call.program q)) Finds (System.start ({} : World P T))
      (turns (Call.program q) {} calls) :=
  meets_turns (I := Tidy q) (fun call _ hs => (Call.tracks call).run hs (call.steady hs))
    (fun call _ hs => call.steady hs) (fun _ => rfl) (tidy_empty q) calls

/-! ### A race -/

def fileQueue : Config (Option Int) where
  clock := .seconds 60
  backend := .json
  transitions := none

/-- A job is enqueued and two workers ask for a job. -/
def turnsOfTwo : List (ℕ × Call reference (Option Int)) :=
  [(0, .enqueue emptyPayload [] 3 (some 0)), (0, .leaseNext (str "a") (some 1)),
    (1, .leaseNext (str "b") (some 2))]

theorem exclusive_run_turnsOfTwo :
    Run.Always (step (Call.program fileQueue)) (Exclusive fileQueue) (System.start {})
      (turns (Call.program fileQueue) {} turnsOfTwo) :=
  exclusive_run fileQueue _ (meets_turns_calls fileQueue turnsOfTwo)

/-- The job of an empty payload, and the same job under the lease of a worker. -/
def queuedRow (jobId : Str) : Job (Option Int) reference.Obj :=
  newRow jobId (.dict []) [] 3 (some 0)

def leasedRow (jobId worker : Str) : Job (Option Int) reference.Obj :=
  { queuedRow jobId with
    state := .leased, leaseOwner := worker, attemptCount := 1, leaseId := leaseIdOf jobId 1,
    heartbeatAt := some (some 1), leaseExpiresAt := some (some 61), updatedAt := some 1 }

theorem saveUpsert_leasedRow {jobId worker : Str} (hid : Encodable jobId)
    (hworker : Encodable worker) (s : World reference (Option Int)) :
    saveUpsert fileQueue.clock (leasedRow jobId worker) [queuedRow jobId] s =
      (.ok (), { s with file := [leasedRow jobId worker] }) := by
  have hupsert : upsertInto (leasedRow jobId worker) [queuedRow jobId] =
      [leasedRow jobId worker] := if_pos rfl
  have hsave : saveJson reference (fileQueue.clock.sorted [leasedRow jobId worker]) =
      .ok [leasedRow jobId worker] := by
    refine saveJson_eq_ok.mpr ⟨.cons rfl .nil, fun r hr => ?_⟩
    rw [List.mem_singleton.mp hr, isSome_encode_iff]
    have hlease : Encodable (leaseIdOf jobId 1) :=
      (encodable_of_ascii (by decide)).append (hid.append (encodable_of_ascii (by decide)))
    exact hid.append (hworker.append (hlease.append fun _ hc => absurd hc List.not_mem_nil))
  rw [saveUpsert, hupsert, hsave]

/-- Both workers load the queue before either stores. -/
def race : List (Action ℕ (Call reference (Option Int))) :=
  [.call 0 (.leaseNext (str "a") (some 1)), .call 1 (.leaseNext (str "b") (some 1))] ++
    ((List.replicate 3 (.advance 0) ++ List.replicate 3 (.advance 1)) ++
      ([.advance 0, .advance 0] ++ [.advance 1, .advance 1]))

/-- What is left of a call that has loaded the queue. -/
def storing (jobId worker : Str) :
    Program Fault (World reference (Option Int)) (Reply reference (Option Int)) :=
  .step (fun s => loadJson reference fileQueue.clock s = [queuedRow jobId] ∧
      fileQueue.unchanged (some (queuedRow jobId)) (leasedRow jobId worker) s)
    (fun s => (saveUpsert fileQueue.clock (leasedRow jobId worker) [queuedRow jobId] s).2)
    fun s => ((Program.done
      (saveUpsert fileQueue.clock (leasedRow jobId worker) [queuedRow jobId] s).1).bind
        fun _ => pure (some (leasedRow jobId worker))).bind fun row => pure (.row row)

theorem reads_leaseNext (jobId worker : Str) :
    Reads { file := [queuedRow jobId] } 3 ((Call.leaseNext worker (some 1)).program fileQueue)
      (storing jobId worker) :=
  .step rfl (.step rfl (.step rfl .none))

theorem run_storing {jobId worker : Str} (hid : Encodable jobId) (hworker : Encodable worker)
    {σ : Shared reference (Option Int) ℕ} {i : ℕ} {c : Call reference (Option Int)}
    (h : σ.running i = some (c, storing jobId worker)) :
    Run.run (step (Call.program fileQueue)) σ [.advance i, .advance i] =
      σ.put i none { σ.state with file := [leasedRow jobId worker] }
        [(c, .ok (.row (some (leasedRow jobId worker))))] := by
  have hsave := saveUpsert_leasedRow hid hworker σ.state
  have hstore : step (Call.program fileQueue) σ (.advance i) =
      σ.put i (some (c, .done (.ok (.row (some (leasedRow jobId worker))))))
        { σ.state with file := [leasedRow jobId worker] } [] := by
    rw [step_advance_step h, hsave]
    rfl
  rw [Run.run_cons, hstore, Run.run_cons, step_advance_done put_running_self, Run.run_nil, put_put]
  rfl

theorem run_enqueue_fileQueue {jobId : Str}
    (hid : deterministicJobId (P := reference) [] [] = .ok jobId) :
    run ((Call.enqueue emptyPayload [] 3 (some 0)).program fileQueue) {} =
      (.ok (.row (some (queuedRow jobId))), { file := [queuedRow jobId] }) := by
  have hupsert := run_upsertRow_empty (q := fileQueue) rfl 3 (some 0) hid
  have hrun : run (enqueue fileQueue emptyPayload [] 3 (some 0)) {} =
      (.ok (queuedRow jobId), { file := [queuedRow jobId] }) := by
    rw [run_enqueue_empty hid]
    exact run_bind_of_ok hupsert
  exact (run_bind_pure _ _ _).trans (by rw [hrun]; rfl)

theorem run_load {jobId worker : Str} {σ : Shared reference (Option Int) ℕ} {i : ℕ}
    (hs : σ.state = { file := [queuedRow jobId] })
    (h : σ.running i = some
      (.leaseNext worker (some 1), (Call.leaseNext worker (some 1)).program fileQueue)) :
    Run.run (step (Call.program fileQueue)) σ (List.replicate 3 (.advance i)) =
      σ.put i (some (.leaseNext worker (some 1), storing jobId worker)) σ.state [] := by
  refine run_reads ?_ h
  rw [hs]
  exact reads_leaseNext jobId worker

theorem run_loads {jobId : Str} {σ : Shared reference (Option Int) ℕ}
    (hs : σ.state = { file := [queuedRow jobId] })
    (h₀ : σ.running 0 = some
      (.leaseNext (str "a") (some 1), (Call.leaseNext (str "a") (some 1)).program fileQueue))
    (h₁ : σ.running 1 = some
      (.leaseNext (str "b") (some 1), (Call.leaseNext (str "b") (some 1)).program fileQueue)) :
    Run.run (step (Call.program fileQueue)) σ
        (List.replicate 3 (.advance 0) ++ List.replicate 3 (.advance 1)) =
      (σ.put 0 (some (.leaseNext (str "a") (some 1), storing jobId (str "a"))) σ.state []).put 1
        (some (.leaseNext (str "b") (some 1), storing jobId (str "b"))) σ.state [] := by
  rw [Run.run_append, run_load hs h₀]
  exact run_load (σ := σ.put 0 _ σ.state []) hs ((put_running_of_ne (by decide)).trans h₁)

theorem run_stores {jobId : Str} (hid : Encodable jobId) {σ : Shared reference (Option Int) ℕ}
    {c d : Call reference (Option Int)} (h₀ : σ.running 0 = some (c, storing jobId (str "a")))
    (h₁ : σ.running 1 = some (d, storing jobId (str "b"))) :
    (Run.run (step (Call.program fileQueue)) σ
        ([.advance 0, .advance 0] ++ [.advance 1, .advance 1])).returned =
      σ.returned ++ [(c, .ok (.row (some (leasedRow jobId (str "a")))))] ++
        [(d, .ok (.row (some (leasedRow jobId (str "b")))))] := by
  have ha : Encodable (str "a") := encodable_of_ascii (by decide)
  have hb : Encodable (str "b") := encodable_of_ascii (by decide)
  rw [Run.run_append, run_storing hid ha h₀]
  have hsecond := run_storing
    (σ := σ.put 0 none { σ.state with file := [leasedRow jobId (str "a")] }
      [(c, .ok (.row (some (leasedRow jobId (str "a")))))]) hid hb
    ((put_running_of_ne (by decide)).trans h₁)
  rw [hsecond]
  rfl

theorem run_race {jobId : Str} (hid : Encodable jobId) {σ : Shared reference (Option Int) ℕ}
    (hs : σ.state = { file := [queuedRow jobId] }) (hσ : ∀ i, σ.running i = none) :
    (Run.run (step (Call.program fileQueue)) σ race).returned =
      σ.returned ++
        [(.leaseNext (str "a") (some 1), .ok (.row (some (leasedRow jobId (str "a")))))] ++
        [(.leaseNext (str "b") (some 1), .ok (.row (some (leasedRow jobId (str "b")))))] := by
  have h01 : (0 : ℕ) ≠ 1 := by decide
  have hcalls : Run.run (step (Call.program fileQueue)) σ
      [.call 0 (.leaseNext (str "a") (some 1)), .call 1 (.leaseNext (str "b") (some 1))] =
        (σ.put 0 (some (.leaseNext (str "a") (some 1),
          (Call.leaseNext (str "a") (some 1)).program fileQueue)) σ.state []).put 1
          (some (.leaseNext (str "b") (some 1),
            (Call.leaseNext (str "b") (some 1)).program fileQueue)) σ.state [] := by
    rw [Run.run_cons, step_call_of_idle (hσ 0), Run.run_cons,
      step_call_of_idle ((put_running_of_ne h01.symm).trans (hσ 1))]
    rfl
  have hloads := run_loads (σ := (σ.put 0 (some (.leaseNext (str "a") (some 1),
    (Call.leaseNext (str "a") (some 1)).program fileQueue)) σ.state []).put 1
      (some (.leaseNext (str "b") (some 1),
        (Call.leaseNext (str "b") (some 1)).program fileQueue)) σ.state []) hs
    ((put_running_of_ne h01).trans put_running_self) put_running_self
  unfold race
  rw [Run.run_append, Run.run_append, hcalls, hloads]
  rw [run_stores hid ((put_running_of_ne h01).trans put_running_self) put_running_self]
  simp only [put_returned, List.append_nil]

theorem run_turns_enqueue {jobId : Str}
    (hid : deterministicJobId (P := reference) [] [] = .ok jobId) :
    Run.run (step (Call.program fileQueue)) (System.start {})
        (turns (Call.program fileQueue) {} [(0, .enqueue emptyPayload [] 3 (some 0))]) =
      (System.start {} : Shared reference (Option Int) ℕ).put 0 none { file := [queuedRow jobId] }
        [(.enqueue emptyPayload [] 3 (some 0), .ok (.row (some (queuedRow jobId))))] := by
  have hcall : Run.run (step (Call.program fileQueue))
      (System.start {} : Shared reference (Option Int) ℕ)
      (.call 0 (.enqueue emptyPayload [] 3 (some 0)) :: finish 0 _ _) = _ :=
    run_call_finish (System.start_running {} 0)
  rw [System.start_state, run_enqueue_fileQueue hid] at hcall
  unfold turns turns
  rw [List.append_nil]
  exact hcall

/-- Both workers are given the one job with its first attempt. -/
theorem not_exclusive :
    ¬Run.Always (step (Call.program fileQueue)) (Exclusive fileQueue) (System.start {})
      (turns (Call.program fileQueue) {} [(0, .enqueue emptyPayload [] 3 (some 0))] ++ race) := by
  intro h
  obtain ⟨jobId, hid⟩ := exists_jobId reference
  have hidle : ∀ i, ((System.start {} : Shared reference (Option Int) ℕ).put 0 none
      { file := [queuedRow jobId] }
      [(.enqueue emptyPayload [] 3 (some 0), .ok (.row (some (queuedRow jobId))))]).running i =
        none := by
    intro i
    by_cases hi : i = 0
    · rw [hi, put_running_self]
    · exact put_running_of_ne hi
  have hleases := h.last.leases
  rw [Run.run_append, run_turns_enqueue hid, run_race (encodable_jobId hid) rfl hidle] at hleases
  have hdouble : (jobId, (1 : Int)) ∉ [(jobId, (1 : Int))] := (List.nodup_cons.mp hleases).1
  exact hdouble (List.mem_singleton_self _)

end Adaad.JobQueue
