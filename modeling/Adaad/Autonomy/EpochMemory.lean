import Adaad.Innovations.Ledger

/-!
# The epoch memory

`runtime/autonomy/epoch_memory_store.py`: a window of the newest epoch outcomes, chained by their
digests.  The digest of the newest entry that was evicted is the anchor of the window, and the first
line of the file.
-/

namespace Adaad.EpochMemory

open Py Innovations

variable {P : Platform}

/-- `GENESIS_DIGEST` -/
def genesisDigest : Str :=
  List.replicate 64 48

/-- `_ENTRY_VERSION` -/
def entryVersion : Str := str "52.0"

/-! ### Entries -/

variable (P) in
/-- What `emit` is given of an epoch. -/
structure Outcome where
  epochId : Str
  winningAgent : Option Str
  winningMutationType : Option Str
  winningStrategyId : Option Str
  fitnessDelta : P.Float
  proposalCount : Int
  acceptedCount : Int
  contextHash : Str
  constitutionVersion : Str

variable (P) in
/-- `EpochMemoryEntry` -/
structure Entry where
  seq : Int
  outcome : Outcome P
  entryVersion : Str
  entryDigest : Str
  prevDigest : Str

/-- A text or `None`. -/
def textOrNone : Option Str → P.Obj
  | none => .none
  | some s => .str s

variable (round6 : P.Float → P.Float)

/-- The fields that are digested; `round6 x` is `round(float(x), 6)`. -/
def canonicalFields (seq : Int) (o : Outcome P) (version : Str) : Members P.Float :=
  [(.str (str "seq"), .int seq), (.str (str "epoch_id"), .str o.epochId),
    (.str (str "winning_agent"), textOrNone o.winningAgent),
    (.str (str "winning_mutation_type"), textOrNone o.winningMutationType),
    (.str (str "winning_strategy_id"), textOrNone o.winningStrategyId),
    (.str (str "fitness_delta"), .float (round6 o.fitnessDelta)),
    (.str (str "proposal_count"), .int o.proposalCount),
    (.str (str "accepted_count"), .int o.acceptedCount),
    (.str (str "context_hash"), .str o.contextHash),
    (.str (str "constitution_version"), .str o.constitutionVersion),
    (.str (str "entry_version"), .str version)]

/-- `_canonical_json` -/
def canonicalJson (seq : Int) (o : Outcome P) (version : Str) : Str :=
  (dumpsSortedAscii P .compact (.dict (canonicalFields round6 seq o version))).getD []

/-- `compute_digest` -/
def computeDigest (seq : Int) (o : Outcome P) (version : Str) : Str :=
  P.sha256 ((encode (canonicalJson round6 seq o version)).getD [])

/-- `verify_integrity` -/
def Entry.verifyIntegrity (e : Entry P) : Bool :=
  e.entryDigest = computeDigest round6 e.seq e.outcome e.entryVersion

def Entry.toDict (e : Entry P) : Members P.Float :=
  [(.str (str "seq"), .int e.seq), (.str (str "epoch_id"), .str e.outcome.epochId),
    (.str (str "winning_agent"), textOrNone e.outcome.winningAgent),
    (.str (str "winning_mutation_type"), textOrNone e.outcome.winningMutationType),
    (.str (str "winning_strategy_id"), textOrNone e.outcome.winningStrategyId),
    (.str (str "fitness_delta"), .float e.outcome.fitnessDelta),
    (.str (str "proposal_count"), .int e.outcome.proposalCount),
    (.str (str "accepted_count"), .int e.outcome.acceptedCount),
    (.str (str "context_hash"), .str e.outcome.contextHash),
    (.str (str "constitution_version"), .str e.outcome.constitutionVersion),
    (.str (str "entry_version"), .str e.entryVersion),
    (.str (str "entry_digest"), .str e.entryDigest), (.str (str "prev_digest"), .str e.prevDigest)]

/-- A text or `None`, as it was written. -/
def textOrNoneOf : P.Obj → Except LoadError (Option Str)
  | .none => .ok none
  | v => (textOf v).map some

def floatOf : P.Obj → Except LoadError P.Float
  | .float x => .ok x
  | _ => .error .foreign

/-- `str(d.get(key, default))`, of a text. -/
def textOr (d : Members P.Float) (key default : Str) : Except LoadError Str :=
  textOf ((get d key).getD (.str default))

/-- `from_dict`, of a mapping whose values are of the types that are written. -/
def Entry.fromDict (d : Members P.Float) : Except LoadError (Entry P) := do
  let context ← textOr d (str "context_hash") []
  let contextHash ← if context = [] then textOr d (str "context_hash_v2") [] else .ok context
  let seq ← intAt d (str "seq")
  let epochId ← textAt d (str "epoch_id")
  let winningAgent ← textOrNoneOf ((get d (str "winning_agent")).getD .none)
  let winningMutationType ← textOrNoneOf ((get d (str "winning_mutation_type")).getD .none)
  let winningStrategyId ← textOrNoneOf ((get d (str "winning_strategy_id")).getD .none)
  let fitnessDelta ← floatOf ((get d (str "fitness_delta")).getD (.float (P.floatOf
    (.lit ⟨false, [48], [48], none⟩))))
  let proposalCount ← intOf ((get d (str "proposal_count")).getD (.int 0))
  let acceptedCount ← intOf ((get d (str "accepted_count")).getD (.int 0))
  let constitutionVersion ← textOr d (str "constitution_version") (str "0.9.0")
  let version ← textOr d (str "entry_version") EpochMemory.entryVersion
  let entryDigest ← textAt d (str "entry_digest")
  let prevDigest ← textOr d (str "prev_digest") genesisDigest
  return {
    seq
    outcome := {
      epochId, winningAgent, winningMutationType, winningStrategyId, fitnessDelta, proposalCount,
      acceptedCount, contextHash, constitutionVersion }
    entryVersion := version
    entryDigest
    prevDigest }

/-! ### The store -/

variable (P) in
/-- An `EpochMemoryStore` in memory. -/
structure Store where
  windowSize : Nat
  entries : List (Entry P) := []
  anchorDigest : Str := genesisDigest
  nextSeq : Int := 0

/-- `entries[-n:]` -/
def lastEntries {α : Type} (entries : List α) (n : Int) : List α :=
  if 0 < n then entries.drop (entries.length - n.toNat) else entries.drop (-n).toNat

/-- `window` -/
def Store.window (s : Store P) : Option Int → List (Entry P)
  | none => s.entries
  | some n => lastEntries s.entries n

/-- Each entry names the digest of the one before it, and the first names the anchor. -/
def linksValid : Str → List (Entry P) → Bool
  | _, [] => true
  | expected, e :: es => e.prevDigest = expected && linksValid e.entryDigest es

/-- `chain_valid` -/
def Store.chainValid (s : Store P) : Bool :=
  s.entries.all (Entry.verifyIntegrity round6) && linksValid s.anchorDigest s.entries

/-- The loop of `emit` that evicts the oldest entries. -/
def evict (windowSize : Nat) : Str → List (Entry P) → Str × List (Entry P)
  | anchor, [] => (anchor, [])
  | anchor, e :: es =>
    if windowSize < (e :: es).length then evict windowSize e.entryDigest es else (anchor, e :: es)

/-- The entry that `emit` appends. -/
def Store.nextEntry (s : Store P) (o : Outcome P) : Entry P where
  seq := s.nextSeq
  outcome := o
  entryVersion := entryVersion
  entryDigest := computeDigest round6 s.nextSeq o entryVersion
  prevDigest := (s.entries.getLast?.map Entry.entryDigest).getD s.anchorDigest

/-- `emit`, in memory. -/
def Store.emit (s : Store P) (o : Outcome P) : Store P :=
  let r := evict s.windowSize s.anchorDigest (s.entries ++ [s.nextEntry round6 o])
  { s with anchorDigest := r.1, entries := r.2, nextSeq := s.nextSeq + 1 }

/-! ### The file -/

def anchorMark : Str := str "#anchor:"

/-- The lines of `_persist`. -/
def Store.lines (s : Store P) : List Str :=
  (anchorMark ++ s.anchorDigest) :: s.entries.map fun e => dumpsAscii P .compact (.dict e.toDict)

/-- `_persist`; a text that cannot be encoded leaves the file as it was. -/
def Store.persist (s : Store P) (file : Option Bytes) : Option Bytes :=
  match encode (s.lines.flatMap (· ++ [lf])) with
  | some b => some b
  | none => file

/-- Why a load degrades to an empty store. -/
inductive DegradeError where
  | integrity (detail : Str)
  | parse
  | io
  deriving DecidableEq, Repr

variable (P) in
/-- What the loop of `_load` has read. -/
structure Loaded where
  anchor : Str := genesisDigest
  previousDigest : Str := genesisDigest
  entries : List (Entry P) := []

/-- The body of the loop of `_load`. -/
def loadLine (l : Loaded P) (line : Str) : Except DegradeError (Loaded P) :=
  let line := strip line
  if line = [] then .ok l
  else if anchorMark <+: line then
    let anchor := line.drop anchorMark.length
    .ok { l with anchor := anchor, previousDigest := anchor }
  else
    match loads P line with
    | none => .error .parse
    | some raw =>
      match itemsOf raw >>= Entry.fromDict with
      | .error _ => .error .parse
      | .ok e =>
        if e.verifyIntegrity round6 = false then
          .error (.integrity (str "epoch_memory_integrity_broken:entry_digest_mismatch"))
        else if e.prevDigest ≠ l.previousDigest then
          .error (.integrity (str "epoch_memory_integrity_broken:prev_digest_mismatch"))
        else .ok { l with entries := l.entries ++ [e], previousDigest := e.entryDigest }

/-- What `_load` reads of a file. -/
def loadFile (file : Bytes) : Except DegradeError (Loaded P) :=
  match readText file with
  | .error _ => .error .io
  | .ok text => (splitlines text).foldlM (loadLine round6) {}

/-- `__init__`, with `_load` and `_degrade_to_empty`. -/
def Store.create (windowSize : Nat) (file : Option Bytes) : Store P :=
  match file with
  | none => { windowSize := windowSize }
  | some b =>
    match loadFile round6 b with
    | .error _ => { windowSize := windowSize }
    | .ok l =>
      let entries := lastEntries l.entries windowSize
      { windowSize := windowSize
        entries := entries
        anchorDigest := l.anchor
        nextSeq := (entries.getLast?.map fun e => e.seq + 1).getD 0 }

/-! ### Runs -/

/-- A window size of at least one. -/
structure WindowSize where
  size : Nat
  pos : 0 < size

variable (P) in
inductive Action where
  | emit (outcome : Outcome P)
  /-- The file is opened again, with this window size. -/
  | reopen (window : WindowSize)

variable (P) in
/-- The store and its file, with what was emitted so far and what the file was written with. -/
structure World where
  file : Option Bytes := none
  store : Store P
  emitted : List (Entry P) := []
  written : List (Entry P) := []

/-- A store on a file that does not exist yet. -/
def World.new (window : WindowSize) : World P where
  store := { windowSize := window.size }

def World.step (w : World P) : Action P → World P
  | .emit outcome =>
    let store := w.store.emit round6 outcome
    { file := store.persist w.file
      store := store
      emitted := w.emitted ++ [w.store.nextEntry round6 outcome]
      written := store.entries }
  | .reopen window => { w with store := Store.create round6 window.size w.file }

end Adaad.EpochMemory
