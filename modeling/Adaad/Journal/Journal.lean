import Adaad.Ledger.ChainFile

/-!
# The event taxonomy

Event types and AGM steps, their legacy names, and the check that a journal entry's type belongs to
its step (`runtime/governance/event_taxonomy.py`).
-/

namespace Adaad

open Py

variable (P : Platform)

/-- `f"agm_step_{index:02d}"` -/
def agmStep (index : Nat) : Str :=
  str "agm_step_" ++ (if index < 10 then 48 :: natText index else natText index)

/-- `range(1, 13)` -/
def stepIndices : List Nat :=
  (List.range 12).map (· + 1)

/-- `AGM_STEPS`; the event types `EVENT_TYPE_AGM_STEP_01` to `_12` are the same texts. -/
def agmSteps : List Str :=
  stepIndices.map agmStep

/-- `AGM_STEP_EVENT_TYPES` -/
def agmStepEventTypes : List (Str × List Str) :=
  agmSteps.map fun step => (step, [step])

/-- `AGM_CONTROL_EVENT_TYPES` -/
def agmControlEventTypes : List Str :=
  [str "step_fault", str "canonical_declared", str "event_deprecated", str "event_migrated",
    str "budget_mode_changed", str "attribution_recorded"]

/-- `CANONICAL_EVENT_TYPES` -/
def canonicalEventTypes : List Str :=
  agmSteps ++ agmControlEventTypes ++
    [str "constitution_escalation", str "replay_failure", str "replay_divergence",
      str "operator_override", str "LegitimacyEvaluation", str "context_ledger_entry_accepted.v1",
      str "context_ledger_entry_rejected.v1", str "context_ledger_tamper_detected.v1",
      str "soulbound_key_rotation.v1", str "craft_pattern_extracted.v1",
      str "context_replay_injected.v1", str "soulbound_key_absent.v1",
      str "routed_intelligence_decision.v1"]

/-- `LEGACY_EVENT_TYPE_FALLBACKS` -/
def legacyEventTypeFallbacks : List (Str × Str) :=
  stepIndices.map (fun i => (str "step_" ++ natText i, agmStep i)) ++
    stepIndices.map (fun i => (str "agm_step_" ++ natText i, agmStep i)) ++
    [(str "step_error", str "step_fault"), (str "step_failed", str "step_fault"),
      (str "canonical_event_declared", str "canonical_declared"),
      (str "event_canonicalized", str "canonical_declared"),
      (str "event_deprecation_declared", str "event_deprecated"),
      (str "event_migration_declared", str "event_migrated"),
      (str "budget_mode_change", str "budget_mode_changed"),
      (str "budget_profile_changed", str "budget_mode_changed"),
      (str "attribution_recorded_v1", str "attribution_recorded"),
      (str "constitution_escalated", str "constitution_escalation"),
      (str "manual_override", str "operator_override"),
      (str "operator_manual_override", str "operator_override"),
      (str "replay_check_failed", str "replay_failure"),
      (str "replay_verification_failed", str "replay_failure"),
      (str "replay_divergence_detected", str "replay_divergence"),
      (str "legitimacyevaluation", str "LegitimacyEvaluation")]

/-- `LEGACY_STEP_FALLBACKS` -/
def legacyStepFallbacks : List (Str × Str) :=
  stepIndices.map (fun i => (natText i, agmStep i)) ++
    stepIndices.map (fun i => (str "step_" ++ natText i, agmStep i)) ++
    stepIndices.map (fun i => (str "agm_step_" ++ natText i, agmStep i))

/-- `normalize_agm_step(agm_step)`; no step is the empty text. -/
def normalizeAgmStep (step : Option P.Obj) : Str :=
  let candidate := P.lower (strip (strOr P step))
  if candidate ∈ agmSteps then candidate
  else (legacyStepFallbacks.lookup candidate).getD []

/-- `normalize_event_type({"event_type": event_type})` -/
def normalizeEventType (eventType : Str) : Str :=
  let t := P.lower (strip eventType)
  if t ∈ canonicalEventTypes then t else (legacyEventTypeFallbacks.lookup t).getD t

/-- `validate_event_type_for_agm_step(event_type=…, agm_step=…)` -/
def validateEventTypeForAgmStep (eventType : Str) (step : Option P.Obj) : Except Exc Str :=
  let normalizedType := normalizeEventType P eventType
  let normalizedStep := normalizeAgmStep P step
  if normalizedType = [] then .error (.valueError (str "event_type_missing"))
  else
    match step with
    | none => .ok normalizedType
    | some v =>
      if v matches .none ∨ strip (toStr P v) = [] then .ok normalizedType
      else if normalizedStep = [] then
        .error (.valueError (str "agm_step_unknown:" ++ toStr P v))
      else if normalizedType ∈
          (agmStepEventTypes.lookup normalizedStep).getD [] ++ agmControlEventTypes then
        .ok normalizedType
      else
        .error (.valueError (str "event_type_not_allowed:" ++ normalizedType ++ str ":" ++
          normalizedStep))

end Adaad

/-!
## The Cryovant journal

`security/ledger/journal.py`: an append-only file of chained entries, verified from the last
remembered tail where there is one.

A tail is remembered twice: in the memory of each process (`TailCache`, the value of
`_VERIFIED_TAIL_CACHE` for the journal's path) and in a tail-state file that all processes share.
`World` is what one process sees; `System` has the disk and the cache of every process.

The recovery hook is `None` throughout, and reading and writing files does not fail by itself.
-/

namespace Adaad.Journal

open Py

variable (P : Platform)

/-! ### Files -/

/-- A file and its modification time. -/
structure File where
  bytes : Bytes
  mtimeNs : Nat
  deriving DecidableEq, Repr

/-- The files of a journal (`JournalPaths`); the lock file is never read. -/
structure Disk where
  journal : Option File
  genesis : Option Bytes
  tailState : Option Bytes
  deriving DecidableEq, Repr

/-- A value of `_VERIFIED_TAIL_CACHE`. -/
structure TailCache where
  lastHash : Str
  offset : Nat
  modifiedNs : Nat
  contentDigest : Str
  deriving DecidableEq, Repr

/-- What one process sees. -/
structure World where
  disk : Disk
  cache : Option TailCache
  deriving DecidableEq, Repr

/-- The texts and times that `time` and the file system give during a call. -/
structure Clock where
  /-- `time.strftime("%Y%m%d%H%M%S", …)` -/
  compact : Str
  /-- `time.strftime("%Y-%m-%dT%H:%M:%SZ", …)` -/
  iso : Str
  /-- The modification time of a journal that the call creates. -/
  created : Nat
  /-- The modification time that the journal has after the call wrote to it. -/
  written : Nat

/-- `_journal_content_digest(path)` -/
def contentDigest (f : File) : Str :=
  P.sha256 f.bytes

/-- What a missing journal is created with: the text of the genesis file, or nothing. -/
def seedBytes : Option Bytes → Except Exc Bytes
  | some g => readText g >>= writeText
  | none => .ok []

/-- `ensure_journal` -/
def ensureJournal (now : Nat) (d : Disk) : Except Exc (File × Disk) :=
  match d.journal with
  | some f => .ok (f, d)
  | none => do
    let bytes ← seedBytes d.genesis
    return (⟨bytes, now⟩, { d with journal := some ⟨bytes, now⟩ })

/-! ### Verification -/

/-- The verification loop of the journal compares hashes by `!=`. -/
def reader : Reader where
  name := str "journal"
  compare := compareText

/-- `_hash_line(prev_hash, payload)` -/
def hashLine (prev : Str) (payload : Members P.Float) : Except Exc Str :=
  chainHash P .spaced prev payload

/-- `_scan_chain`: the last hash and the offset of the end of the file. -/
def scanChain (b : Bytes) (startOffset : Nat) (expectedPrevHash : Str) :
    Except Fault (Str × Nat) :=
  (checkFile P reader expectedPrevHash (b.drop startOffset)).map fun h => (h, b.length)

/-! ### The remembered tail -/

def lastHashKey : Str := str "last_hash"
def offsetKey : Str := str "offset"

/-- `offset` where it is an `int` that is not negative; `True` and `False` are. -/
def readOffset : Option P.Obj → Option Nat
  | some (.int i) => if i < 0 then none else some i.toNat
  | some (.bool b) => some (if b then 1 else 0)
  | _ => none

/-- `_read_tail_state(path)` -/
def readTailState (d : Disk) : Except Exc (Option (Str × Nat)) :=
  match d.tailState with
  | none => .ok none
  | some b => do
    let text ← readText b
    match (loads P text).bind Value.members? with
    | none => return none
    | some data =>
      let lastHash := strOr P (get data lastHashKey)
      if lastHash.length ≠ 64 then return none
      else return (readOffset P (get data offsetKey)).map fun offset => (lastHash, offset)

/-- What `_write_tail_state` writes. -/
def tailStateText (lastHash : Str) (offset : Nat) : Str :=
  dumps P .spaced
    (.dict [(.str lastHashKey, .str lastHash), (.str offsetKey, .int offset)])

/-- `_write_tail_state` -/
def writeTailState (w : World) (lastHash : Str) (offset : Nat) : Except Exc World := do
  let bytes ← writeText (tailStateText P lastHash offset)
  return { w with disk := { w.disk with tailState := some bytes } }

/-- `_write_verified_tail_cache` -/
def writeVerifiedTailCache (w : World) (lastHash : Str) (offset : Nat) : World :=
  { w with
    cache := some
      { lastHash
        offset
        modifiedNs := (w.disk.journal.map File.mtimeNs).getD 0
        contentDigest := (w.disk.journal.map (contentDigest P)).getD [] } }

/-- `_write_verified_tail_state` -/
def writeVerifiedTailState (w : World) (lastHash : Str) (offset : Nat) : Except Exc World := do
  let w ← writeTailState P w lastHash offset
  return writeVerifiedTailCache P w lastHash offset

/-- A remembered tail.  Only the cache knows the time and the digest of the journal it was verified
for. -/
structure TailPoint where
  hash : Str
  offset : Nat
  verified : Option (Nat × Str)
  deriving DecidableEq, Repr

def TailCache.point (c : TailCache) : TailPoint :=
  ⟨c.lastHash, c.offset, some (c.modifiedNs, c.contentDigest)⟩

/-- The remembered tails in the order in which they are tried. -/
def tailPoints (cache : Option TailCache) (state : Option (Str × Nat)) : List TailPoint :=
  (cache.map TailCache.point).toList ++ (state.map fun s => ⟨s.1, s.2, none⟩).toList

/-- `_resume_verified_tail` -/
def resumeVerifiedTail (w : World) (f : File) (p : TailPoint) :
    Except Fault (Option (Str × Nat)) × World :=
  if f.bytes.length < p.offset then (.ok none, w)
  else if f.bytes.length = p.offset then
    if p.verified = some (f.mtimeNs, contentDigest P f) then
      (.ok (some (p.hash, p.offset)), writeVerifiedTailCache P w p.hash p.offset)
    else (.ok none, w)
  else
    match scanChain P f.bytes p.offset p.hash with
    | .error e => (.error e, w)
    | .ok (lastHash, offset) =>
      match writeVerifiedTailState P w lastHash offset with
      | .error e => (.error (.raised e), w)
      | .ok w => (.ok (some (lastHash, offset)), w)

/-- The loop over the remembered tails.  An integrity error clears the cache, and the next tail is
tried; any other exception ends the call. -/
def resumeTails (f : File) : World → List TailPoint → Except Fault (Option (Str × Nat)) × World
  | w, [] => (.ok none, w)
  | w, p :: ps =>
    match resumeVerifiedTail P w f p with
    | (.ok (some tail), w) => (.ok (some tail), w)
    | (.ok none, w) => resumeTails f w ps
    | (.error (.integrity _), w) => resumeTails f { w with cache := none } ps
    | (.error (.raised e), w) => (.error (.raised e), w)

def rescan (w : World) (f : File) : Except Fault (Str × Nat) × World :=
  match scanChain P f.bytes 0 genesisHash with
  | .error e => (.error e, w)
  | .ok (lastHash, offset) =>
    match writeVerifiedTailState P w lastHash offset with
    | .error e => (.error (.raised e), w)
    | .ok w => (.ok (lastHash, offset), w)

/-- `_validated_last_hash` -/
def validatedLastHash (created : Nat) (w : World) : Except Fault (Str × Nat) × World :=
  match ensureJournal created w.disk with
  | .error e => (.error (.raised e), w)
  | .ok (f, disk) =>
    let w := { w with disk }
    match readTailState P disk with
    | .error e => (.error (.raised e), w)
    | .ok state =>
      match resumeTails P f w (tailPoints w.cache state) with
      | (.error e, w) => (.error e, w)
      | (.ok (some tail), w) => (.ok tail, w)
      | (.ok none, w) => rescan P w f

/-- `verify_journal_integrity` -/
def verifyJournalIntegrity (created : Nat) (w : World) : Except Fault Unit × World :=
  ((validatedLastHash P created w).1.map fun _ => (), (validatedLastHash P created w).2)

/-! ### Appending -/

/-- The arguments of an `append_tx` call on a given journal. -/
structure Request where
  txType : Str
  payload : Dict P.Float
  txId : Option Str
  /-- Empty where there is none. -/
  tenantContext : Members P.Float

def txKey : Str := str "tx"
def tsKey : Str := str "ts"
def typeKey : Str := str "type"
def payloadKey : Str := str "payload"
def tenantIdKey : Str := str "tenant_id"
def workspaceIdKey : Str := str "workspace_id"
def agmStepKey : Str := str "agm_step"

/-- The payload of the entry: the caller's, with the identifiers of the tenant set. -/
def entryPayload (payload tenantContext : Members P.Float) : Members P.Float :=
  if tenantContext = [] then payload
  else
    set (set payload tenantIdKey (.str (strOr P (get tenantContext tenantIdKey)))) workspaceIdKey
      (.str (strOr P (get tenantContext workspaceIdKey)))

def draftEntry (r : Request P) (normalizedType : Str) (clock : Clock) (prev : Str) :
    Members P.Float :=
  let tx := match r.txId with
    | some t => if t = [] then str "TX-" ++ normalizedType ++ str "-" ++ clock.compact else t
    | none => str "TX-" ++ normalizedType ++ str "-" ++ clock.compact
  [(.str txKey, .str tx), (.str tsKey, .str clock.iso), (.str typeKey, .str normalizedType),
    (.str payloadKey, .dict (entryPayload P r.payload.items r.tenantContext)),
    (.str prevHashKey, .str prev)]

def entryLine (e : Members P.Float) : Str :=
  dumps P .spaced (.dict e) ++ [lf]

/-- The entry, the offset of its end and the journal with its line. -/
structure Appended where
  entry : Members P.Float
  hash : Str
  offset : Nat

/-- `append_tx` up to and including the write of the line. -/
def appendLine (r : Request P) (clock : Clock) (w : World) : Except Fault (Appended P) × World :=
  match validateEventTypeForAgmStep P r.txType (get r.payload.items agmStepKey) with
  | .error e => (.error (.raised e), w)
  | .ok normalizedType =>
    match validatedLastHash P clock.created w with
    | (.error e, w) => (.error e, w)
    | (.ok (prev, offset), w) =>
      let draft := draftEntry P r normalizedType clock prev
      match hashLine P prev draft with
      | .error e => (.error (.raised e), w)
      | .ok hash =>
        let entry := set draft hashKey (.str hash)
        match writeText (entryLine P entry) with
        | .error e => (.error (.raised e), w)
        | .ok line =>
          (.ok ⟨entry, hash, offset + line.length⟩,
            { w with
              disk.journal := w.disk.journal.map fun f => ⟨f.bytes ++ line, clock.written⟩ })

/-- `append_tx` -/
def appendTx (r : Request P) (clock : Clock) (w : World) : Except Fault (Members P.Float) × World :=
  match appendLine P r clock w with
  | (.error e, w) => (.error e, w)
  | (.ok a, w) =>
    match writeVerifiedTailState P w a.hash a.offset with
    | .error e => (.error (.raised e), w)
    | .ok w => (.ok a.entry, w)

/-! ### Many processes -/

/-- The disk and the cache of every process. -/
structure System where
  disk : Disk
  caches : Nat → Option TailCache

/-- What process `p` sees. -/
def System.world (s : System) (p : Nat) : World :=
  ⟨s.disk, s.caches p⟩

/-- The system after process `p` has acted. -/
def System.update (s : System) (p : Nat) (w : World) : System :=
  ⟨w.disk, Function.update s.caches p w.cache⟩

def System.initial (genesis : Option Bytes) : System :=
  ⟨⟨none, genesis, none⟩, fun _ => none⟩

/-- Where a process may die during `append_tx`. -/
inductive CrashPoint where
  /-- The line is written, the tail state is not. -/
  | afterLine
  /-- The tail state is written, the cache is not. -/
  | afterTailState
  deriving DecidableEq, Repr

/-- What can happen.  Calls of `append_tx` hold the lock, so they are steps of their own. -/
inductive Step where
  | append (p : Nat) (r : Request P) (clock : Clock)
  | crash (p : Nat) (r : Request P) (clock : Clock) (point : CrashPoint)
  | evict (p : Nat)

def crashTx (r : Request P) (clock : Clock) (point : CrashPoint) (w : World) : World :=
  match appendLine P r clock w with
  | (.error _, w) => w
  | (.ok a, w) =>
    match point with
    | .afterLine => w
    | .afterTailState => (writeTailState P w a.hash a.offset).toOption.getD w

/-- One step.  The memory of a process that dies is gone. -/
def step (s : System) : Step P → System
  | .append p r clock => s.update p (appendTx P r clock (s.world p)).2
  | .crash p r clock point =>
    s.update p { crashTx P r clock point (s.world p) with cache := none }
  | .evict p => s.update p ⟨s.disk, none⟩

/-- The entry that a step returns to its caller. -/
def result (s : System) : Step P → Option (Except Fault (Members P.Float))
  | .append p r clock => some (appendTx P r clock (s.world p)).1
  | _ => none

def run (s : System) (steps : List (Step P)) : System :=
  steps.foldl (step P) s

end Adaad.Journal

/-!
## The recovery hook of the journal

`_validated_last_hash` of `security/ledger/journal.py` with a recovery hook.  The hook is called
before an integrity error is raised, wherever it is raised, and may change the files: a scan that
starts at a remembered tail calls it as well, and the journal is looked at again for every tail.

The names are those of the model without a hook, in a namespace of their own.
-/

namespace Adaad.Journal.Recovery

open Py

variable (P : Platform)

/-- What ends a call. -/
inductive Stop where
  | fault (e : Fault)
  /-- There is no journal any more. -/
  | fileNotFoundError
  deriving DecidableEq, Repr

/-- `on_journal_integrity_failure`: what it raises, if it does, and what it leaves behind. -/
abbrev RecoveryHook := World → Str → Option Stop × World

/-- A call under way, and the journals that the hook was called for; nothing reads these. -/
structure Session where
  world : World
  handed : List Bytes := []

variable (hook : Option RecoveryHook)

/-- `_raise_integrity_error`, for a journal with these bytes. -/
def raiseIntegrityError (s : Session) (journal : Bytes) (message : Str) : Stop × Session :=
  match hook with
  | none => (.fault (.integrity message), s)
  | some onFailure =>
    (((onFailure s.world message).1).getD (.fault (.integrity message)),
      ⟨(onFailure s.world message).2, s.handed ++ [journal]⟩)

/-- `_scan_chain` -/
def scanChain (s : Session) (startOffset : Nat) (expectedPrevHash : Str) :
    Except Stop (Str × Nat) × Session :=
  match s.world.disk.journal with
  | none => (.error .fileNotFoundError, s)
  | some f =>
    match Journal.scanChain P f.bytes startOffset expectedPrevHash with
    | .ok tail => (.ok tail, s)
    | .error (.raised e) => (.error (.fault (.raised e)), s)
    | .error (.integrity message) =>
      (.error (raiseIntegrityError hook s f.bytes message).1,
        (raiseIntegrityError hook s f.bytes message).2)

/-- What `_scan_chain` has found is written down. -/
def remember (s : Session) (tail : Str × Nat) : Except Stop (Str × Nat) × Session :=
  match writeVerifiedTailState P s.world tail.1 tail.2 with
  | .error e => (.error (.fault (.raised e)), s)
  | .ok world => (.ok tail, { s with world })

def scanAndRemember (s : Session) (startOffset : Nat) (expectedPrevHash : Str) :
    Except Stop (Str × Nat) × Session :=
  match scanChain P hook s startOffset expectedPrevHash with
  | (.error e, s) => (.error e, s)
  | (.ok tail, s) => remember P s tail

/-- `_resume_verified_tail` -/
def resumeVerifiedTail (s : Session) (p : TailPoint) :
    Except Stop (Option (Str × Nat)) × Session :=
  match s.world.disk.journal with
  | none => (.error .fileNotFoundError, s)
  | some f =>
    if f.bytes.length < p.offset then (.ok none, s)
    else if f.bytes.length = p.offset then
      if p.verified = some (f.mtimeNs, contentDigest P f) then
        (.ok (some (p.hash, p.offset)),
          { s with world := writeVerifiedTailCache P s.world p.hash p.offset })
      else (.ok none, s)
    else
      ((scanAndRemember P hook s p.offset p.hash).1.map some,
        (scanAndRemember P hook s p.offset p.hash).2)

def resumeTails : Session → List TailPoint → Except Stop (Option (Str × Nat)) × Session
  | s, [] => (.ok none, s)
  | s, p :: ps =>
    match resumeVerifiedTail P hook s p with
    | (.ok (some tail), s) => (.ok (some tail), s)
    | (.ok none, s) => resumeTails s ps
    -- `except JournalIntegrityError`, also one that the hook has raised
    | (.error (.fault (.integrity _)), s) =>
      resumeTails { s with world := { s.world with cache := none } } ps
    | (.error e, s) => (.error e, s)

/-- `_validated_last_hash` -/
def validatedLastHash (created : Nat) (w : World) : Except Stop (Str × Nat) × Session :=
  match ensureJournal created w.disk with
  | .error e => (.error (.fault (.raised e)), ⟨w, []⟩)
  | .ok (_, disk) =>
    match readTailState P disk with
    | .error e => (.error (.fault (.raised e)), ⟨{ w with disk }, []⟩)
    | .ok state =>
      match resumeTails P hook ⟨{ w with disk }, []⟩ (tailPoints w.cache state) with
      | (.error e, s) => (.error e, s)
      | (.ok (some tail), s) => (.ok tail, s)
      | (.ok none, s) => scanAndRemember P hook s 0 genesisHash

/-- `verify_journal_integrity` -/
def verifyJournalIntegrity (created : Nat) (w : World) : Except Stop Unit × Session :=
  ((validatedLastHash P hook created w).1.map fun _ => (),
    (validatedLastHash P hook created w).2)

end Adaad.Journal.Recovery
