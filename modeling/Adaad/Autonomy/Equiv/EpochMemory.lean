import Adaad.Autonomy.EpochMemory
import Adaad.Chain
import Adaad.Py.Reference
import Adaad.Run

/-!
# The entries and the file of the epoch memory

The window of a store is checked as a chain of hashes (`chainValid_iff`).  A file that was written with
such a chain is loaded with the same anchor, and with the entries as their texts are read
(`Saved.loadFile`).
-/

namespace Adaad.EpochMemory

open Py Innovations

variable {P : Platform} (round6 : P.Float → P.Float)

/-! ### Entries -/

/-- The texts of an outcome, as they are read. -/
def Outcome.readBack (o : Outcome P) : Outcome P where
  epochId := readAscii o.epochId
  winningAgent := o.winningAgent.map readAscii
  winningMutationType := o.winningMutationType.map readAscii
  winningStrategyId := o.winningStrategyId.map readAscii
  fitnessDelta := o.fitnessDelta
  proposalCount := o.proposalCount
  acceptedCount := o.acceptedCount
  contextHash := readAscii o.contextHash
  constitutionVersion := readAscii o.constitutionVersion

def Entry.readBack (e : Entry P) : Entry P :=
  { e with outcome := e.outcome.readBack }

/-- The texts of the entry are read as they were written. -/
def Entry.Stays (e : Entry P) : Prop :=
  e.readBack = e

/-- The texts of an entry that are no part of its outcome are ASCII. -/
structure Entry.Ascii (e : Entry P) : Prop where
  version : ∀ c ∈ e.entryVersion, c < 128
  entryDigest : ∀ c ∈ e.entryDigest, isHexDigit c = true
  prevDigest : ∀ c ∈ e.prevDigest, isHexDigit c = true

theorem mapStr_textOrNone (o : Option Str) :
    (textOrNone o : P.Obj).mapStr readAscii = textOrNone (o.map readAscii) := by
  cases o <;> rfl

theorem flat_textOrNone (o : Option Str) : (textOrNone o : P.Obj).Flat := by
  cases o <;> trivial

theorem named_canonicalFields (seq : Int) (o : Outcome P) (version : Str) :
    NamedItems (canonicalFields round6 seq o version) :=
  .of_names [str "seq", str "epoch_id", str "winning_agent", str "winning_mutation_type",
    str "winning_strategy_id", str "fitness_delta", str "proposal_count", str "accepted_count",
    str "context_hash", str "constitution_version", str "entry_version"] rfl (by decide) (by decide)

theorem readItems_canonicalFields (seq : Int) (o : Outcome P) {version : Str}
    (hversion : ∀ c ∈ version, c < 128) :
    readItems (canonicalFields round6 seq o version) =
      canonicalFields round6 seq o.readBack version := by
  simp only [readItems, canonicalFields, List.map_cons, List.map_nil, mapStr_textOrNone, Value.mapStr,
    Outcome.readBack, readAscii_of_ascii hversion]

theorem computeDigest_readBack (seq : Int) (o : Outcome P) {version : Str}
    (hversion : ∀ c ∈ version, c < 128) :
    computeDigest round6 seq o.readBack version = computeDigest round6 seq o version := by
  have hnamed := named_canonicalFields round6 seq o version
  have horderly : (Value.dict (canonicalFields round6 seq o version)).Orderly := by
    refine hnamed.orderly ?_
    simp only [canonicalFields, List.forall_mem_cons]
    exact ⟨Value.Flat.orderly trivial, Value.Flat.orderly trivial, (flat_textOrNone _).orderly,
      (flat_textOrNone _).orderly, (flat_textOrNone _).orderly, Value.Flat.orderly trivial,
      Value.Flat.orderly trivial, Value.Flat.orderly trivial, Value.Flat.orderly trivial,
      Value.Flat.orderly trivial, Value.Flat.orderly trivial, List.forall_mem_nil _⟩
  have hread := dumpsSortedAscii_mapStr P .compact horderly.plain horderly.inOrder
  rw [Value.mapStr, hnamed.mapStr_eq, readItems_canonicalFields round6 seq o hversion] at hread
  unfold computeDigest canonicalJson
  rw [hread]

theorem Entry.named_toDict (e : Entry P) : NamedItems e.toDict :=
  .of_names [str "seq", str "epoch_id", str "winning_agent", str "winning_mutation_type",
    str "winning_strategy_id", str "fitness_delta", str "proposal_count", str "accepted_count",
    str "context_hash", str "constitution_version", str "entry_version", str "entry_digest",
    str "prev_digest"] rfl (by decide) (by decide)

theorem Entry.Ascii.readBack_toDict {e : Entry P} (h : e.Ascii) :
    Py.readBack P e.toDict = e.readBack.toDict := by
  have horderly : ∀ m ∈ e.toDict, m.2.Orderly := by
    simp only [Entry.toDict, List.forall_mem_cons]
    exact ⟨Value.Flat.orderly trivial, Value.Flat.orderly trivial, (flat_textOrNone _).orderly,
      (flat_textOrNone _).orderly, (flat_textOrNone _).orderly, Value.Flat.orderly trivial,
      Value.Flat.orderly trivial, Value.Flat.orderly trivial, Value.Flat.orderly trivial,
      Value.Flat.orderly trivial, Value.Flat.orderly trivial, Value.Flat.orderly trivial,
      Value.Flat.orderly trivial, List.forall_mem_nil _⟩
  rw [readBack_of_orderly horderly]
  simp only [readItems, Entry.toDict, List.map_cons, List.map_nil, mapStr_textOrNone, Value.mapStr,
    Entry.readBack, Outcome.readBack, readAscii_of_ascii h.version,
    readAscii_of_ascii (ascii_of_isHexDigit h.entryDigest),
    readAscii_of_ascii (ascii_of_isHexDigit h.prevDigest)]

theorem textOrNoneOf_textOrNone (o : Option Str) :
    textOrNoneOf (textOrNone o : P.Obj) = .ok o := by
  cases o <;> rfl

theorem Entry.fromDict_toDict (e : Entry P) : Entry.fromDict e.toDict = .ok e := by
  have hagent : textOrNoneOf ((get e.toDict (str "winning_agent")).getD .none) =
      .ok e.outcome.winningAgent := textOrNoneOf_textOrNone _
  have htype : textOrNoneOf ((get e.toDict (str "winning_mutation_type")).getD .none) =
      .ok e.outcome.winningMutationType := textOrNoneOf_textOrNone _
  have hstrategy : textOrNoneOf ((get e.toDict (str "winning_strategy_id")).getD .none) =
      .ok e.outcome.winningStrategyId := textOrNoneOf_textOrNone _
  have hcontext : textOr e.toDict (str "context_hash") [] = .ok e.outcome.contextHash := rfl
  have hcontext' : textOr e.toDict (str "context_hash_v2") [] = .ok [] := rfl
  unfold Entry.fromDict
  rw [hagent, htype, hstrategy, hcontext, hcontext']
  dsimp only [bind, Except.bind]
  by_cases hempty : e.outcome.contextHash = []
  · rw [if_pos hempty, ← hempty]
    rfl
  · rw [if_neg hempty]
    rfl

/-! ### Chains -/

def format : Chain.Format Str (Entry P) where
  prev := Entry.prevDigest
  hash := Entry.entryDigest
  digest _ e := some (computeDigest round6 e.seq e.outcome e.entryVersion)

variable {round6} {anchor : Str} {es : List (Entry P)} {e : Entry P}

theorem links_iff :
    (format round6).Links anchor e ↔ e.prevDigest = anchor ∧ e.verifyIntegrity round6 = true := by
  refine and_congr_right fun _ => ?_
  show some _ = some _ ↔ decide _ = true
  rw [Option.some.injEq, decide_eq_true_eq]
  exact eq_comm

theorem chainValid_iff {s : Store P} :
    s.chainValid round6 = true ↔ (format round6).Valid s.anchorDigest s.entries := by
  obtain ⟨windowSize, entries, anchor, nextSeq⟩ := s
  show (entries.all _ && linksValid anchor entries) = true ↔ _
  dsimp only
  induction entries generalizing anchor with
  | nil => exact iff_of_true rfl trivial
  | cons e es ih =>
    have hrest : _ ↔ (format round6).Valid ((format round6).hash e) es := ih e.entryDigest
    rw [Chain.Format.valid_cons, ← hrest, links_iff, List.all_cons, linksValid]
    simp only [Bool.and_eq_true, decide_eq_true_eq]
    tauto

theorem exists_evict (size : Nat) (anchor : Str) (es : List (Entry P)) :
    ∃ out, es = out ++ (evict size anchor es).2 ∧
      (evict size anchor es).1 = (format round6).tail anchor out ∧
      (evict size anchor es).2.length = min size es.length := by
  induction es generalizing anchor with
  | nil => exact ⟨[], rfl, rfl, (Nat.min_zero size).symm⟩
  | cons e es ih =>
    unfold evict
    by_cases hlt : size < (e :: es).length
    · rw [if_pos hlt]
      obtain ⟨out, hout, htail, hlength⟩ := ih e.entryDigest
      refine ⟨e :: out, congrArg (e :: ·) hout, htail, ?_⟩
      rw [hlength]
      rw [List.length_cons] at hlt ⊢
      omega
    · rw [if_neg hlt]
      exact ⟨[], rfl, rfl, (Nat.min_eq_right (Nat.le_of_not_lt hlt)).symm⟩

/-! ### The file -/

theorem isHexDigit_genesisDigest : ∀ c ∈ genesisDigest, isHexDigit c = true := by
  decide

theorem anchorMark_eq (s : Str) : anchorMark ++ s = 35 :: (str "anchor:" ++ s) :=
  rfl

def Entry.line (e : Entry P) : Str :=
  dumpsAscii P .compact (.dict e.toDict)

theorem Entry.head_line (e : Entry P) : ∃ t, e.line = 123 :: t := by
  obtain ⟨t, ht⟩ := exists_dumps_dict (P := P) .compact e.toDict
  unfold Entry.line dumpsAscii
  rw [ht]
  exact ⟨_, rfl⟩

theorem strip_anchorLine (h : ∀ c ∈ anchor, isHexDigit c = true) :
    strip (anchorMark ++ anchor) = anchorMark ++ anchor := by
  have hspace : ∀ c ∈ anchorMark ++ anchor, isSpace c = false := by
    have hmark : ∀ c ∈ anchorMark, isSpace c = false := by decide
    exact List.forall_mem_append.mpr ⟨hmark, fun c hc => isSpace_of_isHexDigit (h c hc)⟩
  exact stripBy_eq_self (fun c hc => hspace c (List.mem_of_mem_head? hc))
    fun c hc => hspace c (List.mem_of_getLast? hc)

variable (round6) in
theorem loadLine_anchor (h : ∀ c ∈ anchor, isHexDigit c = true) (l : Loaded P) :
    loadLine round6 l (anchorMark ++ anchor) =
      .ok { l with anchor := anchor, previousDigest := anchor } := by
  unfold loadLine
  dsimp only
  rw [strip_anchorLine h, if_neg (by rw [anchorMark_eq]; exact List.cons_ne_nil _ _),
    if_pos (List.prefix_append _ _), List.drop_left]

theorem loadLine_entry {l : Loaded P} (hascii : e.Ascii)
    (hlinks : (format round6).Links l.previousDigest e) :
    loadLine round6 l e.line =
      .ok { l with entries := l.entries ++ [e.readBack], previousDigest := e.entryDigest } := by
  obtain ⟨hprev, hverify⟩ := links_iff.mp hlinks
  obtain ⟨t, ht⟩ := e.head_line
  have hstrip : strip e.line = e.line := strip_dumpsAscii_dict P .compact e.toDict
  have hnil : e.line ≠ [] := by
    rw [ht]
    exact List.cons_ne_nil _ _
  have hmark : ¬ anchorMark <+: e.line := by
    rw [ht]
    intro hprefix
    have hhead : (35 : Nat) = 123 := (List.cons_prefix_cons.mp hprefix).1
    exact absurd hhead (by decide)
  have hload : loads P e.line = some (.dict e.readBack.toDict) := by
    rw [Entry.line, loads_dumpsAscii_of_named P e.named_toDict]
    exact congrArg (fun ms => some (Value.dict ms)) hascii.readBack_toDict
  have hverify' : e.readBack.verifyIntegrity round6 = true := by
    unfold Entry.verifyIntegrity at hverify ⊢
    rw [← computeDigest_readBack round6 e.seq e.outcome hascii.version] at hverify
    exact hverify
  unfold loadLine
  dsimp only
  rw [hstrip, if_neg hnil, if_neg hmark, hload]
  dsimp only [itemsOf, bind, Except.bind]
  rw [Entry.fromDict_toDict]
  dsimp only
  have hprev' : e.readBack.prevDigest = l.previousDigest := hprev
  rw [if_neg (by rw [hverify']; decide), if_neg (not_not_intro hprev')]
  rfl

theorem foldlM_loadLine {l : Loaded P} (hascii : ∀ e ∈ es, e.Ascii)
    (hvalid : (format round6).Valid l.previousDigest es) :
    (es.map Entry.line).foldlM (loadLine round6) l =
      .ok { l with
        entries := l.entries ++ es.map Entry.readBack
        previousDigest := (format round6).tail l.previousDigest es } := by
  induction es generalizing l with
  | nil =>
    show Except.ok l = .ok { l with entries := l.entries ++ [] }
    rw [List.append_nil]
  | cons e es ih =>
    obtain ⟨he, hes⟩ := List.forall_mem_cons.mp hascii
    rw [List.map_cons, List.foldlM_cons, loadLine_entry he hvalid.1]
    refine (ih hes hvalid.2).trans ?_
    rw [List.append_assoc]
    rfl

/-- The file has this anchor and these entries. -/
def Saved (anchor : Str) (es : List (Entry P)) (file : Bytes) : Prop :=
  encode (((anchorMark ++ anchor) :: es.map Entry.line).flatMap (· ++ [lf])) = some file

theorem printable_line (hanchor : ∀ c ∈ anchor, isHexDigit c = true) :
    ∀ l ∈ (anchorMark ++ anchor) :: es.map Entry.line, l ≠ [] ∧ ∀ c ∈ l, Printable c := by
  refine List.forall_mem_cons.mpr ⟨⟨List.cons_ne_nil _ _, ?_⟩, List.forall_mem_map.mpr fun e _ => ⟨?_, ?_⟩⟩
  · have hmark : ∀ c ∈ anchorMark, Printable c := by
      unfold Printable
      decide
    refine List.forall_mem_append.mpr ⟨hmark, fun c hc => ?_⟩
    have hhex := hanchor c hc
    simp only [isHexDigit, isDigit, Bool.or_eq_true, Bool.and_eq_true, decide_eq_true_eq] at hhex
    unfold Printable
    omega
  · obtain ⟨t, ht⟩ := e.head_line
    rw [ht]
    exact List.cons_ne_nil _ _
  · exact fun c hc => printable_of_mem_dumpsAscii P hc

theorem exists_saved (hanchor : ∀ c ∈ anchor, isHexDigit c = true) (es : List (Entry P)) :
    ∃ file, Saved anchor es file := by
  unfold Saved
  rw [exists_encode_iff]
  refine encodable_of_ascii fun c hc => ?_
  obtain ⟨l, hl, hc⟩ := List.mem_flatMap.mp hc
  rcases List.mem_append.mp hc with hc | hc
  · have := ((printable_line hanchor l hl).2 c hc).2
    omega
  · rw [List.mem_singleton.mp hc]
    decide

theorem Saved.loadFile {file : Bytes} (h : Saved anchor es file)
    (hanchor : ∀ c ∈ anchor, isHexDigit c = true) (hascii : ∀ e ∈ es, e.Ascii)
    (hvalid : (format round6).Valid anchor es) :
    ∃ l, loadFile round6 file = .ok l ∧ l.anchor = anchor ∧ l.entries = es.map Entry.readBack := by
  have hlines := @printable_line P anchor es hanchor
  have htext : readText file = .ok (((anchorMark ++ anchor) :: es.map Entry.line).flatMap (· ++ [lf])) := by
    refine readText_of_encode h fun c hc hcr => ?_
    obtain ⟨l, hl, hc⟩ := List.mem_flatMap.mp hc
    rcases List.mem_append.mp hc with hc | hc
    · have := ((hlines l hl).2 c hc).1
      rw [hcr] at this
      exact absurd this (by decide)
    · rw [List.mem_singleton.mp hc] at hcr
      exact lf_ne_cr hcr
  have hsplit : splitlines (((anchorMark ++ anchor) :: es.map Entry.line).flatMap (· ++ [lf])) =
      (anchorMark ++ anchor) :: es.map Entry.line := by
    refine splitLines_flatMap (by decide) fun l hl => ⟨(hlines l hl).1, fun c hc => ?_⟩
    obtain ⟨hle, hlt⟩ := (hlines l hl).2 c hc
    cases hb : lineBoundary c with
    | false => rfl
    | true =>
      have := le_of_isSeparator (isSeparator_of_lineBoundary hb hle)
      omega
  unfold EpochMemory.loadFile
  rw [htext]
  dsimp only
  rw [hsplit, List.foldlM_cons, loadLine_anchor round6 hanchor]
  dsimp only [bind, Except.bind]
  rw [foldlM_loadLine hascii hvalid]
  exact ⟨_, rfl, rfl, List.nil_append _⟩

end Adaad.EpochMemory

/-!
## Runs of the epoch memory

A store that is opened with a window smaller than the file keeps the anchor of the file with the
newest entries only (`World.not_always_lawful_memory`); the next `emit` mends this.  In a run in which
every window holds the entries of the file, and the texts that are read back stay, every state is as
it should be, and in no other (`World.always_lawful_memory_iff`).
-/

namespace Adaad.EpochMemory

open Py Run

variable {P : Platform} (round6 : P.Float → P.Float)

/-! ### What runs should keep -/

/-- The store is as it should be after what was emitted so far. -/
structure Lawful (w : World P) : Prop where
  chainValid : w.store.chainValid round6 = true
  /-- The window is the newest part of what was emitted. -/
  suffix : w.store.window none <:+ w.emitted
  /-- A store never degrades to an empty one. -/
  newest : w.emitted ≠ [] → w.store.window none ≠ []
  length_le : (w.store.window none).length ≤ w.store.windowSize
  /-- Sequence numbers are consecutive, and go on where they ended. -/
  seqs : w.emitted.map Entry.seq = (List.range w.emitted.length).map fun n : Nat => (n : Int)
  nextSeq : w.store.nextSeq = w.emitted.length

/-- The texts of the entries in the window are read as they were written, and the window holds all
entries of the file; or the digests of two entries that were evicted are the same. -/
def Fits (written : List (Entry P)) (window : WindowSize) : Prop :=
  (∀ e ∈ lastEntries written window.size, e.Stays) ∧
    (written.length ≤ window.size ∨
      (lastEntries written window.size).head?.map Entry.prevDigest =
        written.head?.map Entry.prevDigest)

/-- Where the file is opened again, its entries fit. -/
def World.Steady (w : World P) : Action P → Prop
  | .emit _ => True
  | .reopen window => Fits w.written window

/-! ### What steady runs keep -/

/-- An entry that is emitted. -/
structure Emitted (e : Entry P) : Prop where
  version : e.entryVersion = EpochMemory.entryVersion
  digest : e.entryDigest = computeDigest round6 e.seq e.outcome e.entryVersion

/-- What was emitted is a chain; the window and what the file was written with are the newest of it,
each with the digest of the entry before. -/
structure Kept (w : World P) : Prop where
  emitted : ∀ e ∈ w.emitted, Emitted round6 e
  valid : (format round6).Valid genesisDigest w.emitted
  seqs : w.emitted.map Entry.seq = (List.range w.emitted.length).map fun n : Nat => (n : Int)
  written : ∃ out, w.emitted = out ++ w.written ∧
    (w.file = none ∧ w.emitted = [] ∨
      ∃ file, w.file = some file ∧ w.written ≠ [] ∧
        Saved ((format round6).tail genesisDigest out) w.written file)
  store : ∃ out, w.emitted = out ++ w.store.entries ∧
    w.store.anchorDigest = (format round6).tail genesisDigest out
  newest : w.emitted ≠ [] → w.store.entries ≠ []
  length_le : w.store.entries.length ≤ w.store.windowSize
  pos : 0 < w.store.windowSize
  nextSeq : w.store.nextSeq = w.emitted.length

variable {round6} {w : World P} {es out : List (Entry P)} {e : Entry P}

theorem isHexDigit_tail (hes : ∀ e ∈ es, Emitted round6 e) {anchor : Str}
    (hanchor : ∀ c ∈ anchor, isHexDigit c = true) :
    ∀ c ∈ (format round6).tail anchor es, isHexDigit c = true := by
  induction es generalizing anchor with
  | nil => exact hanchor
  | cons e es ih =>
    obtain ⟨he, hes⟩ := List.forall_mem_cons.mp hes
    refine ih hes fun c hc => ?_
    have hc : c ∈ e.entryDigest := hc
    rw [he.digest] at hc
    exact P.isHexDigit_sha256 _ c hc

theorem ascii_of_valid (hes : ∀ e ∈ es, Emitted round6 e) {anchor : Str}
    (hanchor : ∀ c ∈ anchor, isHexDigit c = true) (hvalid : (format round6).Valid anchor es) :
    ∀ e ∈ es, e.Ascii := by
  induction es generalizing anchor with
  | nil => exact List.forall_mem_nil _
  | cons e es ih =>
    obtain ⟨he, hes⟩ := List.forall_mem_cons.mp hes
    have hdigest : ∀ c ∈ e.entryDigest, isHexDigit c = true := by
      rw [he.digest]
      exact P.isHexDigit_sha256 _
    have hversion : ∀ c ∈ EpochMemory.entryVersion, c < 128 := by decide
    refine List.forall_mem_cons.mpr ⟨⟨?_, hdigest, ?_⟩, ih hes hdigest hvalid.2⟩
    · rw [he.version]
      exact hversion
    · rw [show e.prevDigest = anchor from hvalid.1.1]
      exact hanchor

theorem lastEntries_size {α : Type} (l : List α) (window : WindowSize) :
    lastEntries l window.size = l.drop (l.length - window.size) := by
  unfold lastEntries
  rw [if_pos (Int.natCast_pos.mpr window.pos), Int.toNat_natCast]

theorem kept_new (window : WindowSize) : Kept round6 (World.new window : World P) where
  emitted := List.forall_mem_nil _
  valid := trivial
  seqs := rfl
  written := ⟨[], rfl, .inl ⟨rfl, rfl⟩⟩
  store := ⟨[], rfl, rfl⟩
  newest h := absurd rfl h
  length_le := Nat.zero_le _
  pos := window.pos
  nextSeq := rfl

namespace Kept

variable (h : Kept round6 w)
include h

theorem lawful : Lawful round6 w where
  chainValid := by
    obtain ⟨out, hout, hanchor⟩ := h.store
    have hvalid := h.valid
    rw [hout, Chain.Format.valid_append] at hvalid
    rw [chainValid_iff, hanchor]
    exact hvalid.2
  suffix := by
    obtain ⟨out, hout, -⟩ := h.store
    exact ⟨out, hout.symm⟩
  newest := h.newest
  length_le := h.length_le
  seqs := h.seqs
  nextSeq := h.nextSeq

theorem links_nextEntry (o : Outcome P) :
    (format round6).Links ((format round6).tail genesisDigest w.emitted)
      (w.store.nextEntry round6 o) := by
  obtain ⟨out, hout, hanchor⟩ := h.store
  refine ⟨?_, rfl⟩
  show (w.store.entries.getLast?.map Entry.entryDigest).getD w.store.anchorDigest = _
  rw [hout, Chain.Format.tail_append, ← hanchor]
  cases hlast : w.store.entries.getLast? with
  | none =>
    rw [List.getLast?_eq_none_iff.mp hlast]
    rfl
  | some e =>
    obtain ⟨es, hes⟩ := List.getLast?_eq_some_iff.mp hlast
    rw [hes, Chain.Format.tail_concat]
    rfl

theorem emit (o : Outcome P) : Kept round6 (w.step round6 (.emit o)) := by
  obtain ⟨out, hout, hanchor⟩ := h.store
  set e := w.store.nextEntry round6 o with he
  have hlinks := h.links_nextEntry o
  have hemitted : ∀ x ∈ w.emitted ++ [e], Emitted round6 x :=
    List.forall_mem_append.mpr ⟨h.emitted, List.forall_mem_singleton.mpr ⟨rfl, rfl⟩⟩
  obtain ⟨gone, hgone, htail, hlength⟩ := @exists_evict P round6 w.store.windowSize
    w.store.anchorDigest (w.store.entries ++ [e])
  set kept := (evict w.store.windowSize w.store.anchorDigest (w.store.entries ++ [e])).2 with hkept
  have hsplit : w.emitted ++ [e] = (out ++ gone) ++ kept := by
    rw [List.append_assoc, ← hgone, ← List.append_assoc, ← hout]
  have hanchor' : (evict w.store.windowSize w.store.anchorDigest (w.store.entries ++ [e])).1 =
      (format round6).tail genesisDigest (out ++ gone) := by
    rw [htail, hanchor, Chain.Format.tail_append]
  have hnonempty : kept ≠ [] := by
    intro hnil
    have hpos := h.pos
    rw [hnil, List.length_nil, List.length_append, List.length_singleton] at hlength
    omega
  have hhex : ∀ c ∈ (format round6).tail genesisDigest (out ++ gone), isHexDigit c = true := by
    refine isHexDigit_tail (fun x hx => hemitted x ?_) isHexDigit_genesisDigest
    rw [hsplit]
    exact List.mem_append_left _ hx
  obtain ⟨file, hfile⟩ := exists_saved hhex kept
  have hpersist : (w.store.emit round6 o).persist w.file = some file := by
    have hlines : (w.store.emit round6 o).lines =
        (anchorMark ++ (format round6).tail genesisDigest (out ++ gone)) :: kept.map Entry.line := by
      rw [← hanchor']
      rfl
    unfold Store.persist
    rw [hlines, show encode _ = some file from hfile]
  refine ⟨hemitted, ?_, ?_, ⟨out ++ gone, hsplit, .inr ⟨file, hpersist, hnonempty, hfile⟩⟩,
    ⟨out ++ gone, hsplit, hanchor'⟩, fun _ => hnonempty, ?_, h.pos, ?_⟩
  · exact (format round6).valid_concat.mpr ⟨h.valid, hlinks⟩
  · show (w.emitted ++ [e]).map Entry.seq = _
    rw [List.map_append, List.map_singleton, h.seqs]
    show _ ++ [w.store.nextSeq] = (List.range (w.emitted ++ [e]).length).map _
    rw [h.nextSeq, List.length_append, List.length_singleton, List.range_succ, List.map_append,
      List.map_singleton]
  · show kept.length ≤ w.store.windowSize
    rw [hlength]
    exact Nat.min_le_left _ _
  · show w.store.nextSeq + 1 = ((w.emitted ++ [e]).length : Int)
    rw [h.nextSeq, List.length_append, List.length_singleton, Nat.cast_add, Nat.cast_one]

theorem exists_create (window : WindowSize) (hfile : w.emitted ≠ []) :
    ∃ out, w.emitted = out ++ w.written ∧ w.written ≠ [] ∧
      Store.create round6 window.size w.file =
        { windowSize := window.size
          entries := (lastEntries w.written window.size).map Entry.readBack
          anchorDigest := (format round6).tail genesisDigest out
          nextSeq := w.emitted.length } := by
  obtain ⟨out, hout, ⟨-, hnil⟩ | ⟨file, hsome, hwritten, hsaved⟩⟩ := h.written
  · exact absurd hnil hfile
  have hvalid := h.valid
  rw [hout, Chain.Format.valid_append] at hvalid
  have hemitted := h.emitted
  rw [hout] at hemitted
  obtain ⟨hbefore, hkept⟩ := List.forall_mem_append.mp hemitted
  have hhex := isHexDigit_tail hbefore isHexDigit_genesisDigest
  obtain ⟨l, hl, hanchor, hentries⟩ := hsaved.loadFile hhex (ascii_of_valid hkept hhex hvalid.2)
    hvalid.2
  refine ⟨out, hout, hwritten, ?_⟩
  have hlast : lastEntries l.entries window.size =
      (lastEntries w.written window.size).map Entry.readBack := by
    rw [hentries, lastEntries_size, lastEntries_size, List.map_drop, List.length_map]
  have hseq : ((lastEntries w.written window.size).map Entry.readBack).getLast?.map (fun e => e.seq + 1) =
      some (w.emitted.length : Int) := by
    have hshort : w.written.length - window.size < w.written.length :=
      Nat.sub_lt (List.length_pos_iff.mpr hwritten) window.pos
    have hseqs := congrArg List.getLast? h.seqs
    rw [List.getLast?_map, List.getLast?_map, List.getLast?_range,
      if_neg fun hzero => hfile (List.eq_nil_of_length_eq_zero hzero)] at hseqs
    have hsame : (lastEntries w.written window.size).getLast? = w.emitted.getLast? := by
      rw [lastEntries_size, List.getLast?_drop, if_neg (by omega), hout, List.getLast?_append_of_ne_nil _ hwritten]
    rw [List.getLast?_map, hsame, Option.map_map]
    cases hx : w.emitted.getLast? with
    | none => exact absurd (List.getLast?_eq_none_iff.mp hx) hfile
    | some x =>
      rw [hx] at hseqs
      have hxseq : x.seq = ((w.emitted.length - 1 : Nat) : Int) := Option.some.inj hseqs
      have hpos := List.length_pos_iff.mpr hfile
      refine congrArg some ?_
      show x.seq + 1 = _
      rw [hxseq]
      omega
  unfold Store.create
  rw [hsome]
  dsimp only
  rw [hl]
  dsimp only
  rw [hlast, hseq, hanchor]
  rfl

theorem create_of_nil (window : WindowSize) (hnil : w.emitted = []) :
    Store.create round6 window.size w.file = { windowSize := window.size } := by
  obtain ⟨out, hout, ⟨hnone, -⟩ | ⟨file, -, hwritten, -⟩⟩ := h.written
  · rw [hnone]
    rfl
  · rw [hnil] at hout
    exact absurd (List.append_eq_nil_iff.mp hout.symm).2 hwritten

theorem written_of_nil (hnil : w.emitted = []) : w.written = [] := by
  obtain ⟨out, hout, -⟩ := h.written
  rw [hnil] at hout
  exact (List.append_eq_nil_iff.mp hout.symm).2

omit h in
theorem exists_lastEntries (window : WindowSize) :
    ∃ mid, w.written = mid ++ lastEntries w.written window.size := by
  rw [lastEntries_size]
  exact ⟨_, (List.take_append_drop _ _).symm⟩

theorem reopen {window : WindowSize} (hsteady : Fits w.written window) :
    Kept round6 (w.step round6 (.reopen window)) := by
  obtain ⟨hstays, hfits⟩ := hsteady
  by_cases hnil : w.emitted = []
  · show Kept round6 { w with store := Store.create round6 window.size w.file }
    rw [h.create_of_nil window hnil]
    exact { h with
      store := ⟨[], hnil, rfl⟩
      newest := fun hne => absurd hnil hne
      length_le := Nat.zero_le _
      pos := window.pos
      nextSeq := by rw [hnil]; rfl }
  obtain ⟨out, hout, hwritten, hcreate⟩ := h.exists_create window hnil
  obtain ⟨mid, hmid⟩ := exists_lastEntries (w := w) window
  have hlast := lastEntries_size w.written window
  set kept := lastEntries w.written window.size with hkept
  have hread : kept.map Entry.readBack = kept := (List.map_congr_left hstays).trans (List.map_id kept)
  have hshort : w.written.length - window.size < w.written.length :=
    Nat.sub_lt (List.length_pos_iff.mpr hwritten) window.pos
  have hkeptlen : kept.length = w.written.length - (w.written.length - window.size) := by
    rw [hlast, List.length_drop]
  have hne : kept ≠ [] := by
    intro hnil
    rw [hnil, List.length_nil] at hkeptlen
    omega
  have hanchor : (format round6).tail genesisDigest out =
      (format round6).tail genesisDigest (out ++ mid) := by
    rcases hfits with hle | hhead
    · have hmidlen := congrArg List.length hmid
      rw [List.length_append, hkeptlen] at hmidlen
      obtain rfl : mid = [] := List.eq_nil_of_length_eq_zero (by omega)
      rw [List.append_nil]
    · have hvalid := h.valid
      rw [hout, Chain.Format.valid_append] at hvalid
      have hvalid' := hvalid.2
      rw [hmid, Chain.Format.valid_append, ← Chain.Format.tail_append] at hvalid'
      obtain ⟨x, xs, hx⟩ := List.exists_cons_of_ne_nil hne
      obtain ⟨y, ys, hy⟩ := List.exists_cons_of_ne_nil hwritten
      have hxprev : x.prevDigest = (format round6).tail genesisDigest (out ++ mid) := by
        rw [hx] at hvalid'
        exact hvalid'.2.1.1
      have hyprev : y.prevDigest = (format round6).tail genesisDigest out := by
        rw [hy] at hvalid
        exact hvalid.2.1.1
      rw [hx, hy] at hhead
      rw [← hxprev, ← hyprev]
      exact (Option.some.inj hhead).symm
  show Kept round6 { w with store := Store.create round6 window.size w.file }
  rw [hcreate, hread]
  exact { h with
    store := ⟨out ++ mid, by rw [List.append_assoc, ← hmid, ← hout], hanchor⟩
    newest := fun _ => hne
    length_le := by
      show kept.length ≤ window.size
      omega
    pos := window.pos
    nextSeq := rfl }

theorem fits_of_lawful {window : WindowSize}
    (hlawful : Lawful round6 (w.step round6 (.reopen window))) : Fits w.written window := by
  by_cases hnil : w.emitted = []
  · have hwritten := h.written_of_nil hnil
    unfold Fits
    rw [hwritten, lastEntries_size, List.drop_nil]
    exact ⟨List.forall_mem_nil _, .inl (Nat.zero_le _)⟩
  obtain ⟨out, hout, hwritten, hcreate⟩ := h.exists_create window hnil
  obtain ⟨mid, hmid⟩ := exists_lastEntries (w := w) window
  unfold Fits
  set kept := lastEntries w.written window.size with hkept
  have hchain := hlawful.chainValid
  have hsuffix := hlawful.suffix
  have hvalid := h.valid
  rw [hout, Chain.Format.valid_append] at hvalid
  have hread : kept.map Entry.readBack = kept := by
    have hstore : kept.map Entry.readBack <:+ w.emitted := by
      have hwindow : (Store.create round6 window.size w.file).entries <:+ w.emitted := hsuffix
      rw [hcreate] at hwindow
      exact hwindow
    have hkeptsuffix : kept <:+ w.emitted := by
      refine ⟨out ++ mid, ?_⟩
      rw [List.append_assoc, ← hmid, ← hout]
    refine (List.suffix_of_suffix_length_le hstore hkeptsuffix ?_).eq_of_length (List.length_map _)
    exact (List.length_map _).le
  have hstays : ∀ e ∈ kept, e.Stays :=
    List.map_inj_left.mp (hread.trans (List.map_id kept).symm)
  refine ⟨hstays, ?_⟩
  have hchain' : (format round6).Valid ((format round6).tail genesisDigest out) kept := by
    have hvalid' := chainValid_iff.mp
      (show (Store.create round6 window.size w.file).chainValid round6 = true from hchain)
    rw [hcreate, hread] at hvalid'
    exact hvalid'
  by_cases hle : w.written.length ≤ window.size
  · exact .inl hle
  refine .inr ?_
  obtain ⟨y, ys, hy⟩ := List.exists_cons_of_ne_nil hwritten
  have hyprev : y.prevDigest = (format round6).tail genesisDigest out := by
    rw [hy] at hvalid
    exact hvalid.2.1.1
  cases hx : kept with
  | nil =>
    have hlength := congrArg List.length (lastEntries_size w.written window)
    rw [← hkept, hx, List.length_nil, List.length_drop] at hlength
    have hpos := window.pos
    omega
  | cons x xs =>
    rw [hx] at hchain'
    have hxprev : x.prevDigest = (format round6).tail genesisDigest out := hchain'.1.1
    have hhead : w.written.head? = some y := congrArg List.head? hy
    rw [hhead]
    exact congrArg some (hxprev.trans hyprev.symm)

end Kept

/-! ### Runs -/

namespace World

theorem Kept.step {a : Action P} (h : Kept round6 w) (hsteady : w.Steady a) :
    Kept round6 (w.step round6 a) := by
  cases a with
  | emit o => exact h.emit o
  | reopen window => exact h.reopen hsteady

variable (round6) in
/-- Every state of a run is as it should be exactly when each file is opened so. -/
theorem always_lawful_memory_iff (window : WindowSize) (as : List (Action P)) :
    Always (World.step round6) (Lawful round6) (World.new window) as ↔
      Meets (World.step round6) World.Steady (World.new window) as := by
  refine always_iff_meets_of_kept (J := Kept round6) (fun w hw => hw.lawful)
    (fun w a hw hsteady => Kept.step hw hsteady) (fun w a hw hlawful => ?_) (kept_new window)
  cases a with
  | emit o => trivial
  | reopen window => exact hw.fits_of_lawful hlawful

/-! ### A smaller window -/

def someOutcome (x : P.Float) : Outcome P where
  epochId := str "epoch-1"
  winningAgent := some (str "architect")
  winningMutationType := none
  winningStrategyId := none
  fitnessDelta := x
  proposalCount := 3
  acceptedCount := 1
  contextHash := str "a3f2b1c0"
  constitutionVersion := str "0.9.0"

def twoEpochs (x : P.Float) : List (Action P) :=
  [.emit (someOutcome x), .emit (someOutcome x)]

theorem kept_twoEpochs (x : P.Float) :
    Kept round6 (run (World.step round6) (World.new ⟨2, by decide⟩) (twoEpochs x)) :=
  ((kept_new ⟨2, by decide⟩).emit (someOutcome x)).emit (someOutcome x)

theorem eq_of_fits {x : P.Float}
    (h : Fits (run (World.step round6) (World.new ⟨2, by decide⟩) (twoEpochs x)).written
      ⟨1, by decide⟩) :
    computeDigest round6 0 (someOutcome x) EpochMemory.entryVersion = genesisDigest := by
  rcases h.2 with hle | hhead
  · exact absurd (show 2 ≤ 1 from hle) (by decide)
  · exact Option.some.inj hhead

/-- Not every run is lawful: two entries are opened with a window of one. -/
theorem not_always_lawful_memory :
    ¬ ∀ (window : WindowSize) (as : List (Action reference)),
      Always (World.step id) (Lawful id) (World.new window) as := by
  intro hall
  have hlast := (hall ⟨2, by decide⟩ (twoEpochs half ++ [.reopen ⟨1, by decide⟩])).last
  rw [run_append, run_cons, run_nil] at hlast
  have hfits := (kept_twoEpochs half).fits_of_lawful hlast
  exact absurd (eq_of_fits hfits) (by decide +kernel)

end World

end Adaad.EpochMemory
