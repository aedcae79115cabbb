import Adaad.Py.Json.Loads
import Adaad.Program

/-!
# The mutation job queue

`runtime/state/mutation_job_queue.py` and `mutation_job_transitions.py`: a queue of jobs with
leases, kept in a JSON file or in an SQLite table, and beside it, if there is one, a ledger of the
transitions of the jobs.

Every access to a file or a database is one atomic step of a `Program`; the JSON backends read
the file and write it back in two steps.  The content of a JSON file is modelled by the rows that
loading it yields, and a file that is not there by the empty list.
-/

namespace Adaad.JobQueue

open Py

/-! ### Time -/

/-- `float` as the type of timestamps, with the lease timeout of a queue.  The two zeros are one
timestamp, as they are for `==`. -/
structure Clock (T : Type) where
  /-- `t == u` -/
  eq : T → T → Bool
  /-- `t < u` -/
  lt : T → T → Bool
  isNan : T → Bool
  /-- `t + self.lease_timeout_s`; `none` is the `OverflowError` of a timeout beyond `float`. -/
  expires : T → Option T
  eq_iff : ∀ t u, isNan t = false → isNan u = false → (eq t u = true ↔ t = u)
  lt_irrefl : ∀ t, lt t t = false
  lt_trans : ∀ t u v, lt t u = true → lt u v = true → lt t v = true
  lt_total : ∀ t u, isNan t = false → isNan u = false → lt t u = true ∨ t = u ∨ lt u t = true
  isNan_expires : ∀ t u, expires t = some u → isNan t = false → isNan u = false

/-- Whole seconds, and `NaN`, as the timestamps that inputs are run on. -/
def Clock.seconds (timeout : Int) : Clock (Option Int) where
  eq t u := t.isSome && t == u
  lt
    | some t, some u => t < u
    | _, _ => false
  isNan t := t.isNone
  expires t := some (t.map (· + timeout))
  eq_iff t u ht _ := by cases t <;> simp at ht ⊢
  lt_irrefl t := by cases t <;> simp
  lt_trans t u v htu huv := by
    cases t <;> cases u <;> cases v <;> simp at htu huv ⊢
    exact htu.trans huv
  lt_total t u ht hu := by
    cases t <;> cases u <;> simp at ht hu ⊢
    exact Int.lt_trichotomy _ _
  isNan_expires t u h ht := by
    cases t <;> simp at h ht ⊢
    simp [← h]

/-! ### Jobs -/

inductive JobState where
  | queued
  | leased
  | running
  | succeeded
  | failed
  | quarantined
  deriving DecidableEq, Repr

def JobState.text : JobState → Str
  | queued => str "queued"
  | leased => str "leased"
  | running => str "running"
  | succeeded => str "succeeded"
  | failed => str "failed"
  | quarantined => str "quarantined"

/-- The row of a job; its payload is a value in the JSON file and a text in the table. -/
structure Job (T A : Type) where
  jobId : Str
  payload : A
  state : JobState
  dedupeKey : Str
  createdAt : T
  updatedAt : T
  leaseOwner : Str
  leaseExpiresAt : Option T
  heartbeatAt : Option T
  attemptCount : Int
  maxAttempts : Int
  leaseId : Str
  error : Str
  deriving DecidableEq, Repr

/-- The state is one in which a worker has the job. -/
def JobState.held (s : JobState) : Bool :=
  s = .leased || s = .running

/-- The columns other than the payload, which never changes. -/
def Job.status {T A : Type} (row : Job T A) : Job T Unit :=
  { row with payload := () }

/-- A value in the metadata of a transition. -/
inductive MetaValue (T : Type) where
  | num (t : T)
  | text (s : Str)
  deriving DecidableEq, Repr

/-- A row of the transition ledger. -/
structure Transition (T : Type) where
  jobId : Str
  fromState : Str
  toState : Str
  reason : Str
  workerId : Str
  atTs : T
  metadata : List (Str × MetaValue T)
  deriving DecidableEq, Repr

inductive Backend where
  | json
  | sqlite
  deriving DecidableEq, Repr

/-- A queue, and the backend of its transition store if it has one. -/
structure Config (T : Type) where
  clock : Clock T
  backend : Backend
  transitions : Option Backend

/-- The files and the databases. -/
structure World (P : Platform) (T : Type) where
  file : List (Job T P.Obj) := []
  table : List (Job T Str) := []
  transitionFile : List (Transition T) := []
  transitionTable : List (Transition T) := []

inductive Fault where
  | raised (e : Exc)
  /-- An `int` that is too large for SQLite or for `float`. -/
  | overflowError
  /-- `sqlite3.IntegrityError`: `NaN` is stored as `NULL`. -/
  | integrityError
  deriving DecidableEq, Repr

variable {T : Type}

/-- `float.__lt__` and `str.__lt__` on the pair of `created_at` and `job_id`. -/
def Clock.keyLt (c : Clock T) (a b : T × Str) : Bool :=
  if c.eq a.1 b.1 then !strLe b.2 a.2 else c.lt a.1 b.1

def Job.key {A : Type} (row : Job T A) : T × Str :=
  (row.createdAt, row.jobId)

/-- `sorted(rows, key=…)`, and `ORDER BY created_at ASC, job_id ASC`, where no timestamp is `NaN`.
With `NaN` among them Python leaves the order open; this is one that it may have. -/
def Clock.sorted {A : Type} (c : Clock T) (rows : List (Job T A)) : List (Job T A) :=
  rows.insertionSort fun a b => c.keyLt b.key a.key = false

/-- Replace the row of the same job, or else add the row. -/
def upsertInto {A : Type} (row : Job T A) : List (Job T A) → List (Job T A)
  | [] => [row]
  | candidate :: rows =>
    if candidate.jobId = row.jobId then row :: rows else candidate :: upsertInto row rows

def findJob {A : Type} (rows : List (Job T A)) (jobId : Str) : Option (Job T A) :=
  rows.find? fun row => row.jobId = jobId

variable (P : Platform)

/-! ### The JSON file -/

/-- `_load_json` -/
def loadJson (c : Clock T) (s : World P T) : List (Job T P.Obj) :=
  c.sorted s.file

/-- The row that is read back; keys that do not compare are a `TypeError`. -/
def storedRow (row : Job T P.Obj) : Except Exc (Job T P.Obj) :=
  match sortKeys P row.payload with
  | none => .error .typeError
  | some w => .ok { row with payload := image P w }

def Job.chars (row : Job T P.Obj) : Str :=
  row.jobId ++ (row.payload.chars ++ (row.dedupeKey ++ (row.leaseOwner ++ (row.leaseId ++
    row.error))))

/-- `_save_json`: the document is written whole, in UTF-8. -/
def saveJson (rows : List (Job T P.Obj)) : Except Exc (List (Job T P.Obj)) := do
  let stored ← rows.mapM (storedRow P)
  if rows.all fun row => (encode (row.chars P)).isSome then return stored
  else throw .unicodeEncodeError

/-! ### The table -/

/-- A parameter of type `str`. -/
def bindText (s : Str) : Except Fault Str :=
  if (encode s).isSome then .ok s else .error (.raised .unicodeEncodeError)

/-- A parameter of type `int`. -/
def bindInt (i : Int) : Except Fault Int :=
  if -(2 ^ 63) ≤ i ∧ i < 2 ^ 63 then .ok i else .error .overflowError

/-- The parameters are bound in their order, and then the row is put into the table. -/
def sqliteRow (c : Clock T) (row : Job T P.Obj) : Except Fault (Job T Str) := do
  let some canonical := dumpsSorted P .compact row.payload | throw (.raised .typeError)
  let jobId ← bindText row.jobId
  let payloadJson ← bindText canonical
  let dedupeKey ← bindText row.dedupeKey
  let leaseOwner ← bindText row.leaseOwner
  let attemptCount ← bindInt row.attemptCount
  let maxAttempts ← bindInt row.maxAttempts
  let leaseId ← bindText row.leaseId
  let error ← bindText row.error
  if c.isNan row.createdAt || c.isNan row.updatedAt then throw .integrityError
  return {
    jobId, payload := payloadJson, state := row.state, dedupeKey,
    createdAt := row.createdAt, updatedAt := row.updatedAt, leaseOwner,
    leaseExpiresAt := row.leaseExpiresAt.filter fun t => !c.isNan t,
    heartbeatAt := row.heartbeatAt.filter fun t => !c.isNan t,
    attemptCount, maxAttempts, leaseId, error }

/-- A row of `list_jobs`: `"payload": json.loads(row[1])` -/
def loadRow (row : Job T Str) : Except Fault (Job T P.Obj) :=
  match loads P row.payload with
  | none => .error (.raised .jsonDecodeError)
  | some payload => .ok { row with payload }

/-! ### The transition store -/

def MetaValue.chars : MetaValue T → Str
  | num _ => []
  | text s => s

/-- The characters of the strings of a transition. -/
def Transition.chars (row : Transition T) : Str :=
  row.jobId ++ (row.fromState ++ (row.toState ++ (row.reason ++ (row.workerId ++
    row.metadata.flatMap fun m => m.1 ++ m.2.chars))))

variable {P}

/-- `MutationJobTransitionStore.append_transition` -/
def appendTransition (c : Clock T) (backend : Backend) (row : Transition T) :
    Program Fault (World P T) Unit :=
  match backend with
  | .sqlite =>
    .atomic (fun _ => True) fun s =>
      if (encode row.chars).isNone then (.error (.raised .unicodeEncodeError), s)
      else if c.isNan row.atTs then (.error .integrityError, s)
      else (.ok (), { s with transitionTable := s.transitionTable ++ [row] })
  | .json => do
    let rows ← .read fun s => .ok s.transitionFile
    .atomic (fun _ => True) fun s =>
      if (rows ++ [row]).all fun row => (encode row.chars).isSome then
        (.ok (), { s with transitionFile := rows ++ [row] })
      else (.error (.raised .unicodeEncodeError), s)

def Config.transitionRows (q : Config T) (s : World P T) : List (Transition T) :=
  match q.transitions with
  | none => []
  | some .json => s.transitionFile
  | some .sqlite => s.transitionTable

/-- `list_transitions(job_id=…)` -/
def listTransitions (q : Config T) (s : World P T) (jobId : Str) : List (Transition T) :=
  (q.transitionRows s).filter fun row => row.jobId = jobId

/-! ### The store -/

variable (q : Config T)

/-- What `list_jobs` returns. -/
def Config.jobs (s : World P T) : Except Fault (List (Job T P.Obj)) :=
  match q.backend with
  | .sqlite => (q.clock.sorted s.table).mapM (loadRow P)
  | .json => .ok (loadJson P q.clock s)

/-- The row of a job as it stands, without its payload. -/
def Config.status (s : World P T) (jobId : Str) : Option (Job T Unit) :=
  match q.backend with
  | .sqlite => (findJob s.table jobId).map Job.status
  | .json => (findJob s.file jobId).map Job.status

/-- `list_jobs` -/
def listJobs : Program Fault (World P T) (List (Job T P.Obj)) :=
  .read q.jobs

/-- `get` -/
def getJob (jobId : Str) : Program Fault (World P T) (Option (Job T P.Obj)) := do
  let rows ← listJobs q
  return findJob rows jobId

/-- The row of the job is the one that `row` was made from. -/
def Config.unchanged (old : Option (Job T P.Obj)) (row : Job T P.Obj) (s : World P T) : Prop :=
  q.status s row.jobId = old.map Job.status

/-- `INSERT … ON CONFLICT(job_id) DO UPDATE` -/
def executeUpsert (c : Clock T) (row : Job T P.Obj) (s : World P T) :
    Except Fault Unit × World P T :=
  match sqliteRow P c row with
  | .error e => (.error e, s)
  | .ok r => (.ok (), { s with table := upsertInto r s.table })

/-- The rows that were loaded are written back with the row among them. -/
def saveUpsert (c : Clock T) (row : Job T P.Obj) (rows : List (Job T P.Obj)) (s : World P T) :
    Except Fault Unit × World P T :=
  match saveJson P (c.sorted (upsertInto row rows)) with
  | .error e => (.error (.raised e), s)
  | .ok stored => (.ok (), { s with file := stored })

/-- `_upsert_row(row)`, where `row` was made from the row `old` of the job.  It is expected that
this is still the row of the job, and that the file is still the one that was loaded; nothing
checks it. -/
def upsertRow (old : Option (Job T P.Obj)) (row : Job T P.Obj) :
    Program Fault (World P T) Unit :=
  match q.backend with
  | .sqlite => .atomic (q.unchanged old row) (executeUpsert q.clock row)
  | .json => do
    let rows ← .read fun s => .ok (loadJson P q.clock s)
    .atomic (fun s => loadJson P q.clock s = rows ∧ q.unchanged old row s)
      (saveUpsert q.clock row rows)

/-- `_record_transition` -/
def recordTransition (row : Job T P.Obj) (fromState toState reason workerId : Str) (ts : T)
    (metadata : List (Str × MetaValue T)) : Program Fault (World P T) Unit :=
  match q.transitions with
  | none => pure ()
  | some backend =>
    if fromState = toState ∧ reason ≠ str "heartbeat" then pure ()
    else appendTransition q.clock backend
      { jobId := row.jobId, fromState, toState, reason, workerId, atTs := ts, metadata }

/-- `deterministic_job_id` -/
def deterministicJobId (payload : Members P.Float) (dedupeKey : Str) : Except Fault Str :=
  match dumpsSorted P .compact (.dict [(.str (str "dedupe_key"), .str dedupeKey),
      (.str (str "payload"), .dict payload)]) with
  | none => .error (.raised .typeError)
  | some seed =>
    match encode seed with
    | none => .error (.raised .unicodeEncodeError)
    | some b => .ok (str "sha256:" ++ P.sha256 b)

/-- The row of a job that is put into the queue. -/
def newRow (jobId : Str) (payload : P.Obj) (dedupeKey : Str) (maxAttempts : Int) (ts : T) :
    Job T P.Obj where
  jobId := jobId
  payload := payload
  state := .queued
  dedupeKey := dedupeKey
  createdAt := ts
  updatedAt := ts
  leaseOwner := []
  leaseExpiresAt := none
  heartbeatAt := none
  attemptCount := 0
  maxAttempts := max 1 maxAttempts
  leaseId := []
  error := []

/-- `enqueue` -/
def enqueue (payload : Dict P.Float) (dedupeKey : Str) (maxAttempts : Int) (ts : T) :
    Program Fault (World P T) (Job T P.Obj) := do
  let jobId ← .ofExcept (deterministicJobId payload.items dedupeKey)
  match ← getJob q jobId with
  | some existing => return existing
  | none =>
    let row := newRow jobId (.dict payload.items) dedupeKey maxAttempts ts
    upsertRow q none row
    recordTransition q row [] JobState.queued.text (str "enqueue") [] ts []
    return row

/-- The row is held under a lease that has run out. -/
def stale (ts : T) (row : Job T P.Obj) : Bool :=
  row.state.held && match row.leaseExpiresAt with
    | none => false
    | some expires => !q.clock.lt ts expires

def reclaimed (ts : T) (row : Job T P.Obj) : Job T P.Obj :=
  { row with
    state := if row.maxAttempts ≤ row.attemptCount then .quarantined else .queued
    error := if row.maxAttempts ≤ row.attemptCount then str "stale_lease_max_attempts_exhausted"
      else str "stale_lease_reclaimed"
    leaseOwner := []
    leaseExpiresAt := none
    heartbeatAt := none
    updatedAt := ts }

/-- The loop of `recover_orphans`. -/
def recoverRows (ts : T) : List (Job T P.Obj) → Program Fault (World P T) (List Str)
  | [] => pure []
  | row :: rows =>
    if stale q ts row then do
      let new := reclaimed ts row
      upsertRow q (some row) new
      recordTransition q new row.state.text new.state.text (str "stale_lease_recovered") [] ts []
      let recovered ← recoverRows ts rows
      return row.jobId :: recovered
    else recoverRows ts rows

/-- `recover_orphans` -/
def recoverOrphans (ts : T) : Program Fault (World P T) (List Str) := do
  let rows ← listJobs q
  recoverRows q ts rows

/-- `retry` -/
def retry (jobId : Str) (ts : T) : Program Fault (World P T) (Option (Job T P.Obj)) := do
  match ← getJob q jobId with
  | none => return none
  | some row =>
    if row.state ≠ .failed ∧ row.state ≠ .quarantined then return some row
    else if row.maxAttempts ≤ row.attemptCount then return some row
    else
      let new := { row with
        state := .queued, leaseOwner := [], leaseExpiresAt := none, heartbeatAt := none,
        updatedAt := ts, error := [] }
      upsertRow q (some row) new
      recordTransition q new row.state.text JobState.queued.text (str "retry") [] ts []
      return some new

/-- `ts + self.lease_timeout_s` -/
def Clock.expiresAt (c : Clock T) (ts : T) : Except Fault T :=
  match c.expires ts with
  | none => .error .overflowError
  | some t => .ok t

/-- `f"lease-{row['job_id']}-{row['attempt_count']}"` -/
def leaseIdOf (jobId : Str) (attemptCount : Int) : Str :=
  str "lease-" ++ (jobId ++ (str "-" ++ intText attemptCount))

/-- `lease_next` -/
def leaseNext (workerId : Str) (ts : T) : Program Fault (World P T) (Option (Job T P.Obj)) := do
  let _ ← recoverOrphans q ts
  let rows ← listJobs q
  match rows.find? fun row => row.state = .queued with
  | none => return none
  | some row =>
    let attemptCount := row.attemptCount + 1
    let leaseId := leaseIdOf row.jobId attemptCount
    let expires ← .ofExcept (q.clock.expiresAt ts)
    let new := { row with
      state := .leased, leaseOwner := workerId, attemptCount, leaseId, heartbeatAt := some ts,
      leaseExpiresAt := some expires, updatedAt := ts }
    upsertRow q (some row) new
    recordTransition q new row.state.text JobState.leased.text (str "lease_acquired") workerId ts
      [(str "lease_expires_at", .num expires), (str "lease_id", .text leaseId)]
    return some new

/-- `mark_running` -/
def markRunning (jobId workerId : Str) (ts : T) : Program Fault (World P T) Bool := do
  match ← getJob q jobId with
  | none => return false
  | some row =>
    if row.state ≠ .leased ∨ row.leaseOwner ≠ workerId then return false
    else
      let new := { row with state := .running, updatedAt := ts }
      upsertRow q (some row) new
      recordTransition q new row.state.text JobState.running.text (str "dispatch_started") workerId
        ts [(str "lease_id", .text row.leaseId)]
      return true

/-- `heartbeat` -/
def heartbeat (jobId workerId : Str) (ts : T) : Program Fault (World P T) Bool := do
  match ← getJob q jobId with
  | none => return false
  | some row =>
    if !row.state.held ∨ row.leaseOwner ≠ workerId then return false
    else
      let expires ← .ofExcept (q.clock.expiresAt ts)
      let new := { row with
        heartbeatAt := some ts, leaseExpiresAt := some expires, updatedAt := ts }
      upsertRow q (some row) new
      recordTransition q new new.state.text new.state.text (str "heartbeat") workerId ts
        [(str "lease_expires_at", .num expires)]
      return true

/-- The states that `complete` accepts. -/
def terminalState (state : Str) : Option JobState :=
  if state = str "succeeded" then some .succeeded
  else if state = str "failed" then some .failed
  else none

/-- `complete` -/
def complete (jobId state workerId error : Str) (ts : T) : Program Fault (World P T) Bool := do
  match terminalState state with
  | none => .ofExcept (.error (.raised (.valueError (str "invalid_terminal_state"))))
  | some terminal =>
    match ← getJob q jobId with
    | none => return false
    | some row =>
      if row.state = .succeeded ∨ row.state = .failed then return row.state = terminal
      else if !row.state.held then return false
      else if workerId ≠ [] ∧ row.leaseOwner ≠ workerId then return false
      else
        let new := { row with
          state := terminal, error, leaseOwner := [], leaseExpiresAt := none, heartbeatAt := none,
          updatedAt := ts }
        upsertRow q (some row) new
        recordTransition q new row.state.text terminal.text (str "completion") workerId ts
          [(str "error", .text error)]
        return true

/-! ### Calls -/

/-- A call of the store, with its arguments. -/
inductive Call (P : Platform) (T : Type) where
  | enqueue (payload : Dict P.Float) (dedupeKey : Str) (maxAttempts : Int) (ts : T)
  | recoverOrphans (ts : T)
  | retry (jobId : Str) (ts : T)
  | leaseNext (workerId : Str) (ts : T)
  | markRunning (jobId workerId : Str) (ts : T)
  | heartbeat (jobId workerId : Str) (ts : T)
  | complete (jobId state workerId error : Str) (ts : T)

/-- What a call returns. -/
inductive Reply (P : Platform) (T : Type) where
  | row (row : Option (Job T P.Obj))
  | ids (jobIds : List Str)
  | flag (b : Bool)

def Call.program : Call P T → Program Fault (World P T) (Reply P T)
  | .enqueue payload dedupeKey maxAttempts ts => do
    return .row (some (← JobQueue.enqueue q payload dedupeKey maxAttempts ts))
  | .recoverOrphans ts => do return .ids (← JobQueue.recoverOrphans q ts)
  | .retry jobId ts => do return .row (← JobQueue.retry q jobId ts)
  | .leaseNext workerId ts => do return .row (← JobQueue.leaseNext q workerId ts)
  | .markRunning jobId workerId ts => do return .flag (← JobQueue.markRunning q jobId workerId ts)
  | .heartbeat jobId workerId ts => do return .flag (← JobQueue.heartbeat q jobId workerId ts)
  | .complete jobId state workerId error ts => do
    return .flag (← JobQueue.complete q jobId state workerId error ts)

def Call.ts : Call P T → T
  | .enqueue _ _ _ ts | .recoverOrphans ts | .retry _ ts | .leaseNext _ ts | .markRunning _ _ ts
  | .heartbeat _ _ ts | .complete _ _ _ _ ts => ts

def callStep (s : World P T) (call : Call P T) : World P T :=
  (Program.run (call.program q) s).2

/-- The states after each step of each call, where the calls are made one after the other. -/
def history (s : World P T) : List (Call P T) → List (World P T)
  | [] => []
  | call :: calls => Program.trace (call.program q) s ++ history (callStep q s call) calls

end Adaad.JobQueue
