import Adaad.Py.Json.Loads
import Adaad.Run

/-!
# The constitutional mutation queue

`dorkllm/constitutional_mutation_queue.py`: mutations are enqueued with the paths they touch, taken
out in the order of their priority, and completed.  A call that fails may have changed the queue
before it raised.

Whether writing to the ledger file fails is not decided by the queue; it is given with each call.
-/

namespace Adaad.MutationQueue

open Py

variable (P : Platform)

/-! ### Constants -/

def governor : Str := str "DUSTIN L REID"

def validAgents : List Str :=
  [str "ArchitectAgent", str "MutationAgent", str "DreamAgent", str "BeastAgent", str "DEVADAAD"]

def validBlastTiers : List Int := [0, 1, 2]

def human0Priority : Int := 9999

def objectiveWeights : List (Str × Int) :=
  [(str "HUMAN0_GATE", 50), (str "CEL_INTEGRITY", 40), (str "INVARIANT_ENFORCEMENT", 40),
    (str "LEDGER_IMMUTABILITY", 35), (str "REPLAY_VERIFIABILITY", 30),
    (str "CONSTITUTIONAL_COMPLIANCE", 30), (str "DETERMINISM", 25), (str "MUTATION_SAFETY", 25),
    (str "BLAST_RADIUS_CONTROL", 20), (str "ROLLBACK_CAPABILITY", 20),
    (str "AUDIT_COMPLETENESS", 15), (str "PROVENANCE_TRACING", 15), (str "AGENT_GOVERNANCE", 10),
    (str "CONSTITUTIONAL_EVOLUTION", 10), (str "INNOVATION_DELIVERY", 5)]

/-! ### Entries -/

inductive EntryStatus where
  | queued
  | inFlight
  | completed
  | blocked
  | stalled
  deriving DecidableEq, Repr

def EntryStatus.value : EntryStatus → Str
  | queued => str "QUEUED"
  | inFlight => str "IN_FLIGHT"
  | completed => str "COMPLETED"
  | blocked => str "BLOCKED"
  | stalled => str "STALLED"

inductive CompletionOutcome where
  | promoted
  | rolledBack
  deriving DecidableEq, Repr

def CompletionOutcome.value : CompletionOutcome → Str
  | promoted => str "promoted"
  | rolledBack => str "rolled_back"

structure QueueEntry where
  mutationId : Str
  intentDeclarationId : Str
  author : Str
  blastTier : Int
  scopePaths : List Str
  governanceObjectives : List Str
  governanceObjectiveWeight : Int
  priorityScore : Int
  human0Override : Bool
  enqueueTimestamp : Int
  status : EntryStatus
  hmac : Str
  deriving DecidableEq, Repr

def listOfStr (xs : List Str) : P.Obj :=
  .list (xs.map .str)

/-- `entry.to_dict()` -/
def QueueEntry.toDict (e : QueueEntry) : P.Obj :=
  .dict [(.str (str "mutation_id"), .str e.mutationId),
    (.str (str "intent_declaration_id"), .str e.intentDeclarationId),
    (.str (str "author"), .str e.author), (.str (str "blast_tier"), .int e.blastTier),
    (.str (str "scope_paths"), listOfStr P e.scopePaths),
    (.str (str "governance_objectives"), listOfStr P e.governanceObjectives),
    (.str (str "governance_objective_weight"), .int e.governanceObjectiveWeight),
    (.str (str "priority_score"), .int e.priorityScore),
    (.str (str "human0_override"), .bool e.human0Override),
    (.str (str "enqueue_timestamp"), .int e.enqueueTimestamp),
    (.str (str "status"), .str e.status.value), (.str (str "hmac"), .str e.hmac)]

/-! ### The chain -/

/-- `data.encode()`, of a text that is ASCII here. -/
def encodeAscii (s : Str) : Bytes :=
  (encode s).getD []

/-- `_compute_hmac`, with the secret of the environment. -/
def computeHmac (hmacSecret : Bytes) (data : Str) : Str :=
  hmacSha256 P hmacSecret (encodeAscii data)

/-- `json.dumps(value, sort_keys=True, …)`; all keys are strings. -/
def sortedJson (L : Layout) (v : P.Obj) : Str :=
  (dumpsSortedAscii P L v).getD []

/-- `_compute_entry_hmac` -/
def computeEntryHmac (hmacSecret : Bytes) (entry : P.Obj) : Str :=
  computeHmac P hmacSecret (sortedJson P .compact entry)

/-- `_compute_state_hmac` -/
def computeStateHmac (hmacSecret : Bytes) (previousHmac entriesJson : Str) : Str :=
  computeHmac P hmacSecret (previousHmac ++ entriesJson)

/-- `_verify_chain`, of the ledger file if there is one.  The HMAC that it computes along the way is
compared with nothing: the ledger passes when it can be read. -/
def verifyChain (ledger : Option Bytes) : Bool :=
  match ledger with
  | none => true
  | some b =>
    let r := readLines P b
    r.2 && r.1.all fun line => strip line = [] || (loads P (strip line)).isSome

/-- `export_ledger`; nothing when it raises. -/
def exportLedger (ledger : Option Bytes) : Option (List P.Obj) :=
  match ledger with
  | none => some []
  | some b =>
    let r := readLines P b
    if r.2 then ((r.1.map strip).filter (· ≠ [])).mapM (loads P) else none

/-! ### The queue -/

structure Queue where
  entries : List QueueEntry
  inFlight : List Str
  stateHmac : Str
  snapshotVersion : Nat

/-- A queue, the counter of `RuntimeDeterminismProvider`, and the ledger file if there is one. -/
structure World where
  queue : Queue
  epochCounter : Int
  ledger : Option Bytes

/-- The errors of the queue, with their messages. -/
inductive CMQError where
  | scopeUndeclared (message : Str)
  | intentLinkMissing (message : Str)
  | authorInvalid (message : Str)
  | human0Bypass (message : Str)
  | blastTierInvalid (message : Str)
  | overlapConflict (message : Str)
  | chainBroken (message : Str)
  | queueStalled (message : Str)
  | auditGap (message : Str)
  | error (message : Str)
  deriving DecidableEq, Repr

def newQueue (hmacSecret : Bytes) : Queue where
  entries := []
  inFlight := []
  stateHmac := computeHmac P hmacSecret (str "CMQ-GENESIS")
  snapshotVersion := 0

/-- `_compute_priority` -/
def computePriority (blastTier : Int) (governanceObjectives : List Str) (human0Override : Bool)
    (author : Str) : Int × Int :=
  if human0Override ∧ author = governor then (human0Priority, 0)
  else
    let objWeight := (governanceObjectives.map fun o => (objectiveWeights.lookup o).getD 0).sum
    ((3 - blastTier) * 100 + objWeight, objWeight)

/-- `_find_entry` -/
def Queue.findEntry (q : Queue) (mutationId : Str) : Option QueueEntry :=
  q.entries.find? fun e => e.mutationId = mutationId

/-- One of the paths is a prefix of one of the others, in either direction. -/
def pathsOverlap (newPaths existingPaths : List Str) : Bool :=
  newPaths.any fun newPath =>
    existingPaths.any fun existingPath =>
      existingPath.isPrefixOf newPath || newPath.isPrefixOf existingPath

/-- `_has_overlap` -/
def Queue.hasOverlap (q : Queue) (scopePaths : List Str) : Bool :=
  let inFlightPaths := q.inFlight.flatMap fun mid =>
    ((q.findEntry mid).map QueueEntry.scopePaths).getD []
  pathsOverlap scopePaths inFlightPaths

/-- `_update_state_hmac` -/
def Queue.updateStateHmac (hmacSecret : Bytes) (q : Queue) : Queue :=
  let entriesJson := sortedJson P .compact (.list (q.entries.map fun e => e.toDict P))
  { q with
    stateHmac := computeStateHmac P hmacSecret q.stateHmac entriesJson
    snapshotVersion := q.snapshotVersion + 1 }

/-- `RuntimeDeterminismProvider.now_ms()`: the time is the counter afterwards. -/
def World.tick (w : World) : World :=
  { w with epochCounter := w.epochCounter + 1 }

/-- `_build_event`, at a time. -/
def buildEvent (q : Queue) (now : Int) (eventType mutationId : Str) (extra : Members P.Float) :
    P.Obj :=
  .dict ([(.str (str "event_type"), .str eventType), (.str (str "mutation_id"), .str mutationId),
    (.str (str "timestamp_deterministic"), .int now),
    (.str (str "queue_depth"), .int q.entries.length),
    (.str (str "snapshot_version"), .int q.snapshotVersion),
    (.str (str "hmac"), .str q.stateHmac)] ++ extra)

def eventLine (event : P.Obj) : Bytes :=
  encodeAscii (sortedJson P .spaced event ++ [lf])

/-- `_append_ledger` of an event that is built now.  `fault` is the text of the `OSError`, where
writing fails. -/
def appendLedger (w : World) (fault : Option Str) (eventType mutationId : Str)
    (extra : Members P.Float) (result : QueueEntry) : World × Except CMQError QueueEntry :=
  let w := w.tick
  match fault with
  | some message => (w, .error (.auditGap (str "Ledger write failed: " ++ message)))
  | none =>
    let line := eventLine P (buildEvent P w.queue w.epochCounter eventType mutationId extra)
    ({ w with ledger := some (w.ledger.getD [] ++ line) }, .ok result)

/-- The arguments of `enqueue`. -/
structure EnqueueRequest where
  mutationId : Str
  intentDeclarationId : Str
  author : Str
  blastTier : Int
  scopePaths : List Str
  governanceObjectives : List Str
  human0Override : Bool

/-- The checks that `enqueue` makes first. -/
def checkRequest (q : Queue) (r : EnqueueRequest) : Except CMQError Unit :=
  if r.scopePaths = [] then
    .error (.scopeUndeclared
      (str "mutation_id=" ++ r.mutationId ++ str ": scope_paths must be non-empty"))
  else if r.intentDeclarationId = [] then
    .error (.intentLinkMissing
      (str "mutation_id=" ++ r.mutationId ++ str ": intent_declaration_id required"))
  else if r.author ∉ validAgents ∧ r.author ≠ governor then
    .error (.authorInvalid (str "Unknown author: " ++ r.author))
  else if r.human0Override ∧ r.author ≠ governor then
    .error (.human0Bypass (str "human0_override=True requires author='" ++ governor ++
      str "', got '" ++ r.author ++ str "'"))
  else if r.blastTier ∉ validBlastTiers then
    .error (.blastTierInvalid (str "blast_tier must be 0, 1, or 2; got " ++ intText r.blastTier))
  else if q.hasOverlap r.scopePaths then
    .error (.overlapConflict
      (str "mutation_id=" ++ r.mutationId ++ str " scope_paths overlap with in-flight mutations"))
  else .ok ()

/-- The entry that `enqueue` adds. -/
def newEntry (hmacSecret : Bytes) (r : EnqueueRequest) (now : Int) : QueueEntry :=
  let p := computePriority r.blastTier r.governanceObjectives r.human0Override r.author
  let entry : QueueEntry :=
    { mutationId := r.mutationId
      intentDeclarationId := r.intentDeclarationId
      author := r.author
      blastTier := r.blastTier
      scopePaths := r.scopePaths
      governanceObjectives := r.governanceObjectives
      governanceObjectiveWeight := p.2
      priorityScore := p.1
      human0Override := r.human0Override
      enqueueTimestamp := now
      status := .queued
      hmac := [] }
  { entry with hmac := computeEntryHmac P hmacSecret (entry.toDict P) }

/-- `enqueue` -/
def enqueue (hmacSecret : Bytes) (w : World) (fault : Option Str) (r : EnqueueRequest) :
    World × Except CMQError QueueEntry :=
  match checkRequest w.queue r with
  | .error e => (w, .error e)
  | .ok () =>
    let w := w.tick
    let entry := newEntry P hmacSecret r w.epochCounter
    let q := { w.queue with entries := w.queue.entries ++ [entry] }.updateStateHmac P hmacSecret
    appendLedger P { w with queue := q } fault (str "ENQUEUE") r.mutationId
      [(.str (str "priority_score"), .int entry.priorityScore),
        (.str (str "blast_tier"), .int r.blastTier),
        (.str (str "human0_override"), .bool r.human0Override),
        (.str (str "author"), .str r.author)] entry

/-- An entry goes before another: `(-priority_score, enqueue_timestamp)` is at most that of the
other. -/
def goesBefore (a b : QueueEntry) : Bool :=
  b.priorityScore < a.priorityScore ||
    (a.priorityScore == b.priorityScore && a.enqueueTimestamp ≤ b.enqueueTimestamp)

/-- `peek`: the first of the queued entries, with its place. -/
def Queue.peek (q : Queue) : Option (QueueEntry × Nat) :=
  let candidates := q.entries.zipIdx.filter fun e => e.1.status = .queued
  (candidates.insertionSort fun a b => goesBefore a.1 b.1 = true).head?

/-- The status of the entry at a place is changed. -/
def Queue.setStatus (q : Queue) (place : Nat) (status : EntryStatus) : Queue :=
  { q with entries := q.entries.modify place fun e => { e with status := status } }

def Queue.depth (q : Queue) : Nat :=
  (q.entries.filter fun e => e.status = .queued).length

/-- `dequeue` -/
def dequeue (hmacSecret : Bytes) (w : World) (fault : Option Str) :
    World × Except CMQError QueueEntry :=
  if verifyChain P w.ledger then
    match w.queue.peek with
    | none =>
      (w, .error (.queueStalled
        (str "No QUEUED entries available — queue is empty or all stalled")))
    | some (selected, place) =>
      let q := w.queue.setStatus place .inFlight
      let q := { q with inFlight := q.inFlight ++ [selected.mutationId] }
      let q := q.updateStateHmac P hmacSecret
      appendLedger P { w with queue := q } fault (str "DEQUEUE") selected.mutationId
        [(.str (str "priority_score"), .int selected.priorityScore),
          (.str (str "queue_depth_after"), .int q.depth)] { selected with status := .inFlight }
  else (w, .error (.chainBroken (str "HMAC chain verification failed before dequeue")))

/-- `complete` -/
def complete (hmacSecret : Bytes) (w : World) (fault : Option Str) (mutationId : Str)
    (outcome : CompletionOutcome) : World × Except CMQError QueueEntry :=
  match w.queue.findEntry mutationId with
  | none =>
    (w, .error (.error (str "mutation_id=" ++ mutationId ++ str " not found in queue")))
  | some entry =>
    if entry.status = .inFlight then
      let place := w.queue.entries.findIdx fun e => e.mutationId = mutationId
      let q := w.queue.setStatus place .completed
      let q := { q with inFlight := q.inFlight.erase mutationId }
      let q := q.updateStateHmac P hmacSecret
      appendLedger P { w with queue := q } fault (str "COMPLETE") mutationId
        [(.str (str "outcome"), .str outcome.value),
          (.str (str "queue_depth_after"), .int q.depth)] { entry with status := .completed }
    else
      (w, .error (.error (str "mutation_id=" ++ mutationId ++
        str " is not IN_FLIGHT (status=EntryStatus." ++ entry.status.value ++ str ")")))

/-! ### Runs -/

/-- A call, or something else in the process that moves the counter. -/
inductive Call where
  | enqueue (r : EnqueueRequest) (fault : Option Str)
  | dequeue (fault : Option Str)
  | complete (mutationId : Str) (outcome : CompletionOutcome) (fault : Option Str)
  | reset (seed : Int)

/-- The world after a call, which may have raised. -/
def step (hmacSecret : Bytes) (w : World) : Call → World
  | .enqueue r fault => (enqueue P hmacSecret w fault r).1
  | .dequeue fault => (dequeue P hmacSecret w fault).1
  | .complete mutationId outcome fault => (complete P hmacSecret w fault mutationId outcome).1
  | .reset seed => { w with epochCounter := seed }

def Disjoint (entries : List QueueEntry) : Prop :=
  ∀ (i j : Nat) (e f : QueueEntry), i ≠ j → entries[i]? = some e → entries[j]? = some f →
    e.status = .inFlight → f.status = .inFlight → pathsOverlap e.scopePaths f.scopePaths = false

/-- A call of `dequeue` takes out an entry that overlaps with none in flight. -/
def Free (w : World) : Call → Prop
  | .dequeue _ => verifyChain P w.ledger = true → ∀ e ∈ w.queue.peek, ∀ f ∈ w.queue.entries,
      f.status = .inFlight → pathsOverlap e.1.scopePaths f.scopePaths = false
  | _ => True

end Adaad.MutationQueue
