import Adaad.Chain
import Adaad.Governance.ReviewerReputationLedger
import Adaad.Py.Reference
import Adaad.Run

/-!
# Decisions and their outcomes

The file of a ledger is read as the ledger that was written (`load_of_flush`), and every run leaves a
chain without a key that occurs twice.  The outcome of each decision can be recorded once as long as no
other decision is called what its outcome is called (`always_faithfulReputation_iff`).
-/

namespace Adaad.Governance

open Py Innovations

variable {P : Platform}

/-! ### Hashes -/

namespace ReputationLedgerEntry

/-- The texts that are hashed can be encoded. -/
structure Encodes (e : ReputationLedgerEntry) : Prop where
  reviewerId : Encodable e.reviewerId
  epochId : Encodable e.epochId
  mutationId : Encodable e.mutationId
  decision : Encodable e.decision
  scoringAlgorithmVersion : Encodable e.scoringAlgorithmVersion
  prevEntryHash : Encodable e.prevEntryHash

theorem flat_outcomeObj (o : Option Bool) : (outcomeObj P o).Flat := by
  cases o <;> trivial

theorem named_toDict (e : ReputationLedgerEntry) : NamedItems (e.toDict P) :=
  .of_names [str "sequence_number", str "reviewer_id", str "epoch_id", str "mutation_id",
    str "decision", str "rationale_length", str "outcome_validated", str "scoring_algorithm_version",
    str "prev_entry_hash", str "ledger_format_version", str "event_type", str "entry_hash"] rfl
    (by decide) (by decide)

theorem flatDict_toDict (e : ReputationLedgerEntry) : FlatDict (e.toDict P) where
  ascii := e.named_toDict.ascii
  nodup := e.named_toDict.nodup
  flat := by
    simp only [toDict, canonicalPayload, List.cons_append, List.nil_append, List.forall_mem_cons]
    exact ⟨trivial, trivial, trivial, trivial, trivial, trivial, flat_outcomeObj _, trivial, trivial,
      trivial, trivial, trivial, fun m hm => absurd hm List.not_mem_nil⟩

theorem flatDict_canonicalPayload (e : ReputationLedgerEntry) : FlatDict (e.canonicalPayload P) where
  ascii m hm := e.flatDict_toDict.ascii m (List.mem_append_left _ hm)
  nodup := by
    refine List.Nodup.sublist ?_ (e.flatDict_toDict (P := P)).nodup
    exact (List.sublist_append_left _ _).map Prod.fst
  flat m hm := e.flatDict_toDict.flat m (List.mem_append_left _ hm)

end ReputationLedgerEntry

theorem exists_canonicalDigest_iff {ms : Members P.Float} (hms : FlatDict ms) :
    (∃ h, canonicalDigest P (.dict ms) = .ok h) ↔
      ∀ m ∈ ms, Encodable m.1.chars ∧ Encodable m.2.chars := by
  have hchars : Encodable (dumps P .compact (.dict (sortMembers P ms))) ↔
      ∀ m ∈ ms, Encodable m.1.chars ∧ Encodable m.2.chars := by
    rw [encodable_dumps_iff, encodable_dict_iff]
    exact forall_congr' fun m => imp_congr_left (perm_sortMembers P ms).mem_iff
  rw [← hchars, ← exists_encode_iff]
  unfold canonicalDigest
  rw [canonicalJson_of_sortKeys (hms.sortKeys P)]
  show (∃ h, digestOf P (dumps P .compact (.dict (sortMembers P ms))) = .ok h) ↔ _
  unfold digestOf
  cases encode (dumps P .compact (.dict (sortMembers P ms))) with
  | none =>
    refine iff_of_false ?_ ?_
    · rintro ⟨h, hh⟩
      cases hh
    · rintro ⟨b, hb⟩
      cases hb
  | some b => exact iff_of_true ⟨_, rfl⟩ ⟨b, rfl⟩

theorem ascii_of_canonicalDigest {v : P.Obj} {h : Str} (hh : canonicalDigest P v = .ok h) :
    ∀ c ∈ h, c < 128 := by
  unfold canonicalDigest at hh
  obtain ⟨text, -, hh⟩ := bind_eq_ok.mp hh
  unfold digestOf at hh
  cases hb : encode text with
  | none =>
    rw [hb] at hh
    cases hh
  | some b =>
    rw [hb] at hh
    obtain rfl := Except.ok.inj hh
    exact ascii_prefixed_sha256 P b

theorem encodable_outcomeObj (o : Option Bool) : Encodable (ReputationLedgerEntry.outcomeObj P o).chars := by
  cases o <;> exact encodable_nil

theorem exists_computeEntryHash_iff {e : ReputationLedgerEntry} :
    (∃ h, e.computeEntryHash P = .ok h) ↔ e.Encodes := by
  have hkey : ∀ m ∈ e.canonicalPayload P, Encodable m.1.chars := fun m hm => by
    obtain ⟨k, hk, hascii⟩ := e.flatDict_canonicalPayload.ascii m hm
    rw [hk]
    exact encodable_of_ascii fun c hc => (hascii c hc).trans (by decide)
  have hconst : ∀ t : Str, (∀ c ∈ t, c < 128) → Encodable (Value.str t : P.Obj).chars := fun t ht =>
    encodable_of_ascii ht
  unfold ReputationLedgerEntry.computeEntryHash
  rw [exists_canonicalDigest_iff e.flatDict_canonicalPayload]
  constructor
  · intro h
    have hvalue := fun m hm => (h m hm).2
    simp only [ReputationLedgerEntry.canonicalPayload, List.forall_mem_cons] at hvalue
    obtain ⟨-, hreviewer, hepoch, hmutation, hdecision, -, -, hversion, hprev, -⟩ := hvalue
    exact ⟨hreviewer, hepoch, hmutation, hdecision, hversion, hprev⟩
  · rintro ⟨hreviewer, hepoch, hmutation, hdecision, hversion, hprev⟩
    refine fun m hm => ⟨hkey m hm, ?_⟩
    revert m
    simp only [ReputationLedgerEntry.canonicalPayload, List.forall_mem_cons]
    exact ⟨encodable_nil, hreviewer, hepoch, hmutation, hdecision, encodable_nil,
      encodable_outcomeObj _, hversion, hprev, hconst _ (by decide), hconst _ (by decide),
      fun m hm => absurd hm List.not_mem_nil⟩

/-! ### The file -/

/-- The texts of the entry, its hash included, can be encoded. -/
structure ReputationLedgerEntry.Written (e : ReputationLedgerEntry) : Prop where
  encodes : e.Encodes
  entryHash : Encodable e.entryHash

theorem outcomeOf_outcomeObj (o : Option Bool) :
    ReputationLedgerEntry.outcomeOf (ReputationLedgerEntry.outcomeObj P o) = .ok o := by
  cases o <;> rfl

theorem fromDict_of_read {e : ReputationLedgerEntry} (he : e.Written) {data : Members P.Float}
    (hdata : ∀ k, get data k = (get (e.toDict P) k).bind (reread P)) :
    ReputationLedgerEntry.fromDict data = .ok e := by
  have htext : ∀ {k s}, get (e.toDict P) k = some (.str s) → Encodable s → textAt data k = .ok s := by
    intro k s hget hs
    refine textAt_eq_ok ?_
    rw [hdata, hget, Option.bind_some]
    exact reread_str hs
  have hint : ∀ {k i}, get (e.toDict P) k = some (.int i) → intAt data k = .ok i := by
    intro k i hget
    refine intAt_eq_ok ?_
    rw [hdata, hget, Option.bind_some]
    exact reread_int i
  have houtcome : get data (str "outcome_validated") =
      some (ReputationLedgerEntry.outcomeObj P e.outcomeValidated) := by
    rw [hdata]
    show (some (ReputationLedgerEntry.outcomeObj P e.outcomeValidated)).bind (reread P) = _
    refine reread_of_flat (ReputationLedgerEntry.flat_outcomeObj _) ?_
    cases e.outcomeValidated <;> rfl
  unfold ReputationLedgerEntry.fromDict
  rw [hint (k := str "sequence_number") rfl, htext (k := str "reviewer_id") rfl he.encodes.reviewerId,
    htext (k := str "epoch_id") rfl he.encodes.epochId,
    htext (k := str "mutation_id") rfl he.encodes.mutationId,
    htext (k := str "decision") rfl he.encodes.decision, hint (k := str "rationale_length") rfl, houtcome,
    Option.getD_some, outcomeOf_outcomeObj,
    htext (k := str "scoring_algorithm_version") rfl he.encodes.scoringAlgorithmVersion,
    htext (k := str "prev_entry_hash") rfl he.encodes.prevEntryHash,
    htext (k := str "entry_hash") rfl he.entryHash]
  rfl

theorem intercalate_lines (lines : List Str) :
    ([lf].intercalate lines ++ if lines = [] then [] else [lf]) = lines.flatMap (· ++ [lf]) := by
  induction lines with
  | nil => rfl
  | cons line lines ih =>
    cases lines with
    | nil =>
      rw [List.flatMap_singleton, if_neg (List.cons_ne_nil _ _), List.intercalate_singleton]
    | cons line' lines =>
      rw [if_neg (List.cons_ne_nil _ _)] at ih ⊢
      rw [List.flatMap_cons, ← ih, List.intercalate_cons_cons, List.append_assoc, List.append_assoc]

theorem mapM_of_forall₂ {α β : Type} {f : α → Option β} {xs : List α} {ys : List β}
    (h : List.Forall₂ (fun x y => f x = some y) xs ys) : xs.mapM f = some ys := by
  induction h with
  | nil => rfl
  | cons hxy _ ih =>
    rw [List.mapM_cons, hxy, ih]
    rfl

theorem exists_lines {entries : List ReputationLedgerEntry} (h : ∀ e ∈ entries, e.Written) :
    ∃ (lines : List Str) (rows : List P.Obj),
      List.Forall₂ (fun e line => dumpsSortedAscii P .compact (.dict (e.toDict P)) = some line)
          entries lines ∧
        (∀ line ∈ lines, AsciiRow P .compact line) ∧
        List.Forall₂ (fun line row => loads P (strip line) = some row) lines rows ∧
        List.Forall₂ (fun row e => ReviewerReputationLedger.entryOfLine P row = .ok e) rows entries := by
  induction entries with
  | nil => exact ⟨[], [], .nil, fun line hline => absurd hline List.not_mem_nil, .nil, .nil⟩
  | cons e entries ih =>
    obtain ⟨he, hrest⟩ := List.forall_mem_cons.mp h
    obtain ⟨lines, rows, hlines, hascii, hrows, hentries⟩ := ih hrest
    obtain ⟨line, hline⟩ := exists_dumpsSortedAscii (L := .compact) e.flatDict_toDict.sortable
    obtain ⟨ms, hms⟩ := exists_dumpsAscii_of_sorted P hline
    obtain ⟨data, hloads, hdata⟩ := loads_of_dumpsSortedAscii P e.named_toDict hline
    have hstrip : strip line = line := by
      rw [hms, strip_dumpsAscii_dict]
    refine ⟨line :: lines, .dict data :: rows, .cons hline hlines,
      List.forall_mem_cons.mpr ⟨⟨ms, hms⟩, hascii⟩, .cons ?_ hrows, .cons ?_ hentries⟩
    · show loads P (strip line) = _
      rw [hstrip, hloads]
    · show (ReputationLedgerEntry.fromDict data).mapError ReputationError.line = _
      rw [fromDict_of_read he hdata]
      rfl

namespace ReviewerReputationLedger

theorem foldl_addEntry (l : ReviewerReputationLedger) (entries : List ReputationLedgerEntry) :
    entries.foldl addEntry l = ⟨l.entries ++ entries,
      l.decisionKeys ++ entries.map ReputationLedgerEntry.key, l.scoringAlgorithmVersion⟩ := by
  induction entries generalizing l with
  | nil => rw [List.map_nil, List.append_nil, List.append_nil, List.foldl_nil]
  | cons e entries ih =>
    rw [List.foldl_cons, ih]
    unfold addEntry
    rw [List.append_assoc, List.append_assoc]
    rfl

theorem load_of_flush {l : ReviewerReputationLedger} (hwritten : ∀ e ∈ l.entries, e.Written)
    (hkeys : l.decisionKeys = l.entries.map ReputationLedgerEntry.key)
    (hintact : l.verifyChainIntegrity P = .ok ()) :
    ∃ file, l.flush P = .ok file ∧ ∀ verifyIntegrity version,
      load P verifyIntegrity version (some file) = .ok ⟨l.entries, l.decisionKeys, version⟩ := by
  obtain ⟨lines, rows, hlines, hascii, hrows, hentries⟩ := exists_lines (P := P) hwritten
  obtain ⟨file, hfile⟩ : ∃ file, encode (lines.flatMap (· ++ [lf])) = some file := by
    refine exists_encode_iff.mpr (encodable_of_ascii fun c hc => ?_)
    obtain ⟨line, hline, hc⟩ := List.mem_flatMap.mp hc
    rcases List.mem_append.mp hc with hc | hc
    · have hprintable := (hascii line hline).printable c hc
      exact hprintable.2.trans (by decide)
    · rw [List.mem_singleton.mp hc]
      decide
  refine ⟨file, ?_, fun verifyIntegrity version => ?_⟩
  · unfold flush
    refine bind_eq_ok.mpr ⟨lines, mapM_eq_ok.mpr (hlines.imp fun e line hline => ?_), ?_⟩
    · rw [hline]
    · rw [intercalate_lines]
      exact writeText_of_encode hfile
  · have hread : readRows P strip file = .ok rows := by
      unfold readRows
      rw [readText_asciiLines hascii hfile]
      dsimp only
      rw [filledLines_asciiLines hascii, mapM_of_forall₂ hrows]
    unfold load
    dsimp only
    refine bind_eq_ok.mpr ⟨rows, mapError_eq_ok.mpr hread,
      bind_eq_ok.mpr ⟨l.entries, mapM_eq_ok.mpr hentries, ?_⟩⟩
    rw [foldl_addEntry, hkeys]
    cases verifyIntegrity with
    | false => rfl
    | true => exact bind_eq_ok.mpr ⟨(), hintact, rfl⟩

/-! ### Chains -/

variable (P) in
def Follows (prevHash : Str) (e : ReputationLedgerEntry) : Prop :=
  e.prevEntryHash = prevHash ∧ e.computeEntryHash P = .ok e.entryHash

theorem verifyEntry_of_follows {prevHash : Str} {e : ReputationLedgerEntry} (h : Follows P prevHash e) :
    verifyEntry P prevHash e = .ok e.entryHash := by
  unfold verifyEntry
  rw [if_neg (not_not_intro h.1)]
  have hverify : e.verifyHash P = .ok true := by
    unfold ReputationLedgerEntry.verifyHash
    rw [h.2]
    exact congrArg Except.ok (decide_eq_true rfl)
  rw [hverify]
  rfl

theorem foldlM_of_linked {prevHash : Str} {entries : List ReputationLedgerEntry}
    (h : Chain.Linked (Follows P) ReputationLedgerEntry.entryHash prevHash entries) :
    entries.foldlM (verifyEntry P) prevHash =
      .ok (Chain.lastHash ReputationLedgerEntry.entryHash prevHash entries) := by
  induction entries generalizing prevHash with
  | nil => rfl
  | cons e entries ih =>
    rw [List.foldlM_cons, verifyEntry_of_follows h.1]
    exact ih h.2

/-! ### Appending -/

/-- A review that is appended, and the version that its entry has. -/
structure Admitted (l : ReviewerReputationLedger) (a : Review) : Prop where
  decision : a.decision ∈ validDecisions
  key : a.key ∉ l.decisionKeys
  reviewerId : Encodable a.reviewerId
  epochId : Encodable a.epochId
  mutationId : Encodable a.mutationId
  version : Encodable (l.versionFor a.scoringAlgorithmVersion)

theorem encodable_of_valid {decision : Str} (h : decision ∈ validDecisions) : Encodable decision :=
  encodable_of_ascii fun c hc =>
    (show ∀ d ∈ validDecisions, ∀ c ∈ d, c < 128 by decide) decision h c hc

theorem append_eq_ok {l l' : ReviewerReputationLedger} {a : Review} {e : ReputationLedgerEntry}
    (h : l.append P a = .ok (e, l')) :
    a.decision ∈ validDecisions ∧ a.key ∉ l.decisionKeys ∧
      ∃ entryHash, (l.unhashed a).computeEntryHash P = .ok entryHash ∧
        e = { l.unhashed a with entryHash := entryHash } ∧
        l' = ⟨l.entries ++ [e], l.decisionKeys ++ [a.key], l.scoringAlgorithmVersion⟩ := by
  unfold append at h
  by_cases hdecision : a.decision ∈ validDecisions
  · rw [if_neg (not_not_intro hdecision)] at h
    by_cases hkey : a.key ∈ l.decisionKeys
    · rw [if_pos hkey] at h
      cases h
    · rw [if_neg hkey] at h
      obtain ⟨entryHash, hhash, h⟩ := bind_eq_ok.mp h
      obtain ⟨rfl, rfl⟩ := Prod.mk.inj (Except.ok.inj h)
      exact ⟨hdecision, hkey, entryHash, mapError_eq_ok.mp hhash, rfl, rfl⟩
  · rw [if_pos hdecision] at h
    cases h

theorem append_of_mem {l : ReviewerReputationLedger} {a : Review} (hdecision : a.decision ∈ validDecisions)
    (hkey : a.key ∈ l.decisionKeys) : l.append P a = .error (.duplicateReview a.key) := by
  unfold append
  rw [if_neg (not_not_intro hdecision), if_pos hkey]

theorem encodes_unhashed_iff {l : ReviewerReputationLedger} {a : Review}
    (hprev : Encodable (l.unhashed a).prevEntryHash) (hdecision : a.decision ∈ validDecisions) :
    (l.unhashed a).Encodes ↔ Encodable a.reviewerId ∧ Encodable a.epochId ∧ Encodable a.mutationId ∧
      Encodable (l.versionFor a.scoringAlgorithmVersion) :=
  ⟨fun h => ⟨h.reviewerId, h.epochId, h.mutationId, h.scoringAlgorithmVersion⟩,
    fun h => ⟨h.1, h.2.1, h.2.2.1, encodable_of_valid hdecision, h.2.2.2, hprev⟩⟩

theorem exists_append_iff {l : ReviewerReputationLedger} {a : Review}
    (hprev : Encodable (l.unhashed a).prevEntryHash) :
    (∃ e l', l.append P a = .ok (e, l')) ↔ Admitted l a := by
  constructor
  · rintro ⟨e, l', h⟩
    obtain ⟨hdecision, hkey, entryHash, hhash, -, -⟩ := append_eq_ok h
    obtain ⟨hreviewer, hepoch, hmutation, hversion⟩ := (encodes_unhashed_iff hprev hdecision).mp
      (exists_computeEntryHash_iff.mp ⟨entryHash, hhash⟩)
    exact ⟨hdecision, hkey, hreviewer, hepoch, hmutation, hversion⟩
  · intro h
    obtain ⟨entryHash, hhash⟩ := (exists_computeEntryHash_iff (P := P)).mpr
      ((encodes_unhashed_iff hprev h.decision).mpr ⟨h.reviewerId, h.epochId, h.mutationId, h.version⟩)
    refine ⟨{ l.unhashed a with entryHash := entryHash },
      ⟨l.entries ++ [{ l.unhashed a with entryHash := entryHash }], l.decisionKeys ++ [a.key],
        l.scoringAlgorithmVersion⟩, ?_⟩
    unfold append
    rw [if_neg (not_not_intro h.decision), if_neg h.key, hhash]
    rfl

end ReviewerReputationLedger

/-! ### Runs -/

/-- A ledger, with the decisions that have been appended and the keys of those whose outcome has been
recorded since. -/
structure WatchedReputation where
  ledger : ReviewerReputationLedger
  decided : List (DecisionKey × Str)
  recorded : List DecisionKey

def outcomeKey (key : DecisionKey) : DecisionKey :=
  (key.1, outcomeMutation key.2.1, key.2.2)

namespace WatchedReputation

def new (scoringAlgorithmVersion : Str) : WatchedReputation :=
  ⟨.new scoringAlgorithmVersion, [], []⟩

variable (P) in
def step (w : WatchedReputation) : ReputationAction → WatchedReputation
  | .append a =>
    match w.ledger.append P a with
    | .ok (_, l) => ⟨l, w.decided ++ [(a.key, a.decision)], w.recorded⟩
    | .error _ => w
  | .recordOutcome o =>
    match w.ledger.recordOutcome P o with
    | .ok (_, l) =>
      ⟨l, w.decided,
        if (w.decided.map Prod.fst).contains o.key then w.recorded ++ [o.key] else w.recorded⟩
    | .error _ => w
  | .reload verifyIntegrity version =>
    match w.ledger.flush P with
    | .ok file =>
      match ReviewerReputationLedger.load P verifyIntegrity version (some file) with
      | .ok l => { w with ledger := l }
      | .error _ => w
    | .error _ => w

end WatchedReputation

variable (P) in
/-- The chain is verified, the file is read as the ledger, no key occurs twice, and the outcome of each
decision can be recorded once, by an entry that has the decision. -/
structure FaithfulReputation (w : WatchedReputation) : Prop where
  verified : w.ledger.verifyChainIntegrity P = .ok ()
  reloaded : ∀ verifyIntegrity version, ∃ file l, w.ledger.flush P = .ok file ∧
    ReviewerReputationLedger.load P verifyIntegrity version (some file) = .ok l ∧
      l.entries = w.ledger.entries ∧ l.decisionKeys = w.ledger.decisionKeys ∧
        l.ledgerDigest P = w.ledger.ledgerDigest P
  once : (w.ledger.entries.map ReputationLedgerEntry.key).Nodup
  outcome : ∀ x ∈ w.decided, ∀ o : Outcome, o.key = x.1 → x.1 ∉ w.recorded →
    Encodable (w.ledger.versionFor o.scoringAlgorithmVersion) →
      ∃ e l, w.ledger.recordOutcome P o = .ok (e, l) ∧ e.key = outcomeKey x.1 ∧ e.decision = x.2 ∧
        e.outcomeValidated = some o.outcomeValidated ∧ l.entries = w.ledger.entries ++ [e]
  recorded : ∀ x ∈ w.decided, x.1 ∈ w.recorded →
    (∃ e ∈ w.ledger.entries, e.key = outcomeKey x.1 ∧ e.decision = x.2) ∧
      ∀ o : Outcome, o.key = x.1 →
        w.ledger.recordOutcome P o = .error (.duplicateReview (outcomeKey x.1))

/-- A decision that is appended is not called what the outcome of another one is called that is still
to be recorded, and what its own outcome is called is not in use. -/
def Unambiguous (w : WatchedReputation) : ReputationAction → Prop
  | .append a => w.ledger.Admitted a → outcomeKey a.key ∉ w.ledger.decisionKeys ∧
      ∀ x ∈ w.decided, x.1 ∉ w.recorded → a.key ≠ outcomeKey x.1
  | _ => True

/-! ### What a ledger keeps -/

variable (P) in
/-- A chain of valid decisions, with their keys, which are distinct. -/
structure KeptEntries (l : ReviewerReputationLedger) : Prop where
  linked : Chain.Linked (ReviewerReputationLedger.Follows P) ReputationLedgerEntry.entryHash genesisPrevHash
    l.entries
  valid : ∀ e ∈ l.entries, e.decision ∈ validDecisions
  keys : l.decisionKeys = l.entries.map ReputationLedgerEntry.key
  nodup : l.decisionKeys.Nodup

theorem keptEntries_new (version : Str) : KeptEntries P (.new version) where
  linked := trivial
  valid _ he := absurd he List.not_mem_nil
  keys := rfl
  nodup := List.nodup_nil

namespace KeptEntries

variable {l l' : ReviewerReputationLedger} {a : Review} {e : ReputationLedgerEntry}

theorem verified (h : KeptEntries P l) : l.verifyChainIntegrity P = .ok () := by
  unfold ReviewerReputationLedger.verifyChainIntegrity
  rw [ReviewerReputationLedger.foldlM_of_linked h.linked]
  rfl

theorem written (h : KeptEntries P l) (he : e ∈ l.entries) : e.Written := by
  obtain ⟨as, bs, hsplit⟩ := List.append_of_mem he
  have hlinked := h.linked
  rw [hsplit] at hlinked
  have hfollows := (Chain.linked_append.mp hlinked).2.1
  exact ⟨exists_computeEntryHash_iff.mp ⟨_, hfollows.2⟩,
    encodable_of_ascii (ascii_of_canonicalDigest hfollows.2)⟩

theorem prevEntryHash_eq (l : ReviewerReputationLedger) (a : Review) :
    (l.unhashed a).prevEntryHash =
      Chain.lastHash ReputationLedgerEntry.entryHash genesisPrevHash l.entries :=
  Chain.lastHash_eq.symm

theorem encodable_prevEntryHash (h : KeptEntries P l) (a : Review) :
    Encodable (l.unhashed a).prevEntryHash := by
  show Encodable ((l.entries.getLast?.map ReputationLedgerEntry.entryHash).getD genesisPrevHash)
  cases hlast : l.entries.getLast? with
  | none => exact encodable_of_ascii (by decide)
  | some e => exact (h.written (List.mem_of_getLast? hlast)).entryHash

theorem append (h : KeptEntries P l) (happend : l.append P a = .ok (e, l')) : KeptEntries P l' := by
  obtain ⟨hdecision, hkey, entryHash, hhash, rfl, rfl⟩ := ReviewerReputationLedger.append_eq_ok happend
  refine ⟨?_, ?_, ?_, ?_⟩
  · exact Chain.linked_concat.mpr ⟨h.linked, prevEntryHash_eq l a, hhash⟩
  · exact List.forall_mem_append.mpr ⟨h.valid, List.forall_mem_singleton.mpr hdecision⟩
  · show l.decisionKeys ++ [a.key] = _
    rw [h.keys, List.map_append]
    rfl
  · refine List.nodup_append.mpr ⟨h.nodup, List.nodup_singleton _, ?_⟩
    rintro k hk k' hk' rfl
    obtain rfl := List.mem_singleton.mp hk'
    exact hkey hk

theorem exists_reload (h : KeptEntries P l) :
    ∃ file, l.flush P = .ok file ∧ ∀ verifyIntegrity version,
      ReviewerReputationLedger.load P verifyIntegrity version (some file) =
        .ok ⟨l.entries, l.decisionKeys, version⟩ :=
  ReviewerReputationLedger.load_of_flush (fun _ he => h.written he) h.keys h.verified

theorem originalDecision_eq (h : KeptEntries P l) (he : e ∈ l.entries) :
    l.originalDecision e.key = e.decision := by
  have hnodup := h.nodup
  rw [h.keys] at hnodup
  have hmem : e ∈ l.entries.filter fun e' => e'.key = e.key :=
    List.mem_filter.mpr ⟨he, decide_eq_true rfl⟩
  unfold ReviewerReputationLedger.originalDecision
  cases hlast : (l.entries.filter fun e' => e'.key = e.key).getLast? with
  | none =>
    rw [List.getLast?_eq_none_iff.mp hlast] at hmem
    cases hmem
  | some e' =>
    obtain ⟨he', hkey⟩ := List.mem_filter.mp (List.mem_of_getLast? hlast)
    obtain rfl := List.inj_on_of_nodup_map hnodup he' he (of_decide_eq_true hkey)
    rfl

theorem mem_keys (h : KeptEntries P l) (he : e ∈ l.entries) : e.key ∈ l.decisionKeys := by
  rw [h.keys]
  exact List.mem_map_of_mem he

end KeptEntries

theorem outcomeKey_injective : Function.Injective outcomeKey := by
  rintro ⟨r, m, e⟩ ⟨r', m', e'⟩ h
  obtain ⟨rfl, h⟩ := Prod.mk.inj h
  obtain ⟨hmutation, rfl⟩ := Prod.mk.inj h
  obtain rfl := List.append_cancel_right hmutation
  rfl

theorem outcomeKey_ne (k : DecisionKey) : outcomeKey k ≠ k := by
  intro h
  have hlength : (outcomeKey k).2.1.length = k.2.1.length :=
    congrArg (fun k : DecisionKey => k.2.1.length) h
  have houtcome : (outcomeKey k).2.1.length = k.2.1.length + 8 := List.length_append
  omega

/-! ### What a run keeps -/

variable (P) in
/-- The outcomes that have been recorded are those of decisions whose outcome's key is in use. -/
structure KeptReputation (w : WatchedReputation) : Prop where
  entries : KeptEntries P w.ledger
  decided : ∀ x ∈ w.decided, ∃ e ∈ w.ledger.entries, e.key = x.1 ∧ e.decision = x.2
  mem_recorded : ∀ x ∈ w.decided, x.1 ∈ w.recorded ↔ outcomeKey x.1 ∈ w.ledger.decisionKeys
  outcomes : ∀ x ∈ w.decided, x.1 ∈ w.recorded →
    ∃ e ∈ w.ledger.entries, e.key = outcomeKey x.1 ∧ e.decision = x.2
  known : ∀ k ∈ w.recorded, k ∈ w.decided.map Prod.fst

namespace KeptReputation

variable {w : WatchedReputation}

theorem new (version : Str) : KeptReputation P (.new version) where
  entries := keptEntries_new version
  decided _ hx := absurd hx List.not_mem_nil
  mem_recorded _ hx := absurd hx List.not_mem_nil
  outcomes _ hx := absurd hx List.not_mem_nil
  known _ hk := absurd hk List.not_mem_nil

theorem mem_keys_of_decided (h : KeptReputation P w) {k : DecisionKey} (hk : k ∈ w.decided.map Prod.fst) :
    k ∈ w.ledger.decisionKeys := by
  obtain ⟨x, hx, rfl⟩ := List.mem_map.mp hk
  obtain ⟨e, he, hkey, -⟩ := h.decided x hx
  exact hkey ▸ h.entries.mem_keys he

theorem originalDecision_eq (h : KeptReputation P w) {x : DecisionKey × Str} (hx : x ∈ w.decided) :
    w.ledger.originalDecision x.1 = x.2 := by
  obtain ⟨e, he, hkey, hdecision⟩ := h.decided x hx
  rw [← hkey, h.entries.originalDecision_eq he, hdecision]

theorem step_append {a : Review} (h : KeptReputation P w) (hok : Unambiguous w (.append a)) :
    KeptReputation P (w.step P (.append a)) := by
  unfold WatchedReputation.step
  dsimp only
  cases happend : w.ledger.append P a with
  | error e => exact h
  | ok r =>
    obtain ⟨e, l⟩ := r
    have hadmitted := (ReviewerReputationLedger.exists_append_iff
      (h.entries.encodable_prevEntryHash a)).mp ⟨e, l, happend⟩
    obtain ⟨hfree, hother⟩ := hok hadmitted
    have hentries := h.entries.append happend
    obtain ⟨-, hkey, entryHash, -, he, rfl⟩ := ReviewerReputationLedger.append_eq_ok happend
    have hnew : a.key ∉ w.recorded := fun hmem => hkey (h.mem_keys_of_decided (h.known _ hmem))
    refine ⟨hentries, ?_, ?_, ?_, ?_⟩
    · refine List.forall_mem_append.mpr ⟨fun x hx => ?_, List.forall_mem_singleton.mpr ?_⟩
      · obtain ⟨e', he', hx⟩ := h.decided x hx
        exact ⟨e', List.mem_append_left _ he', hx⟩
      · exact ⟨e, List.mem_append_right _ (List.mem_singleton_self e), by rw [he]; rfl, by rw [he]; rfl⟩
    · refine List.forall_mem_append.mpr ⟨fun x hx => ?_, List.forall_mem_singleton.mpr ?_⟩
      · rw [h.mem_recorded x hx]
        refine ⟨fun hmem => List.mem_append_left _ hmem, fun hmem => ?_⟩
        rcases List.mem_append.mp hmem with hmem | hmem
        · exact hmem
        · by_contra hnot
          exact hother x hx (mt (h.mem_recorded x hx).mp hnot) (List.mem_singleton.mp hmem).symm
      · refine iff_of_false hnew fun hmem => ?_
        rcases List.mem_append.mp hmem with hmem | hmem
        · exact hfree hmem
        · exact outcomeKey_ne a.key (List.mem_singleton.mp hmem)
    · refine List.forall_mem_append.mpr ⟨fun x hx hmem => ?_, List.forall_mem_singleton.mpr ?_⟩
      · obtain ⟨e', he', hx⟩ := h.outcomes x hx hmem
        exact ⟨e', List.mem_append_left _ he', hx⟩
      · exact fun hmem => absurd hmem hnew
    · intro k hk
      rw [List.map_append]
      exact List.mem_append_left _ (h.known k hk)

theorem step_recordOutcome {o : Outcome} (h : KeptReputation P w) :
    KeptReputation P (w.step P (.recordOutcome o)) := by
  unfold WatchedReputation.step
  simp only [List.contains_iff_mem]
  cases happend : w.ledger.recordOutcome P o with
  | error e => exact h
  | ok r =>
    obtain ⟨e, l⟩ := r
    have hentries := h.entries.append happend
    obtain ⟨-, hkey, entryHash, -, he, rfl⟩ := ReviewerReputationLedger.append_eq_ok happend
    have hekey : e.key = outcomeKey o.key := by rw [he]; rfl
    have hmem_recorded : ∀ k, k ∈ (if o.key ∈ w.decided.map Prod.fst then w.recorded ++ [o.key]
        else w.recorded) ↔ k ∈ w.recorded ∨ k = o.key ∧ o.key ∈ w.decided.map Prod.fst := by
      intro k
      by_cases hdecided : o.key ∈ w.decided.map Prod.fst
      · rw [if_pos hdecided, List.mem_append, List.mem_singleton, and_iff_left hdecided]
      · rw [if_neg hdecided]
        exact (or_iff_left fun hk => hdecided hk.2).symm
    refine ⟨hentries, fun x hx => ?_, fun x hx => ?_, fun x hx hmem => ?_, fun k hk => ?_⟩
    · obtain ⟨e', he', hx⟩ := h.decided x hx
      exact ⟨e', List.mem_append_left _ he', hx⟩
    · refine (hmem_recorded x.1).trans ?_
      have hkeys : outcomeKey x.1 ∈ w.ledger.decisionKeys ++ [(w.ledger.outcomeReview o).key] ↔
          outcomeKey x.1 ∈ w.ledger.decisionKeys ∨ outcomeKey x.1 = outcomeKey o.key := by
        rw [List.mem_append, List.mem_singleton]
        rfl
      refine (or_congr (h.mem_recorded x hx) ?_).trans hkeys.symm
      constructor
      · rintro ⟨heq, -⟩
        rw [heq]
      · intro heq
        have hsame := outcomeKey_injective heq
        exact ⟨hsame, hsame ▸ List.mem_map_of_mem hx⟩
    · rcases (hmem_recorded x.1).mp hmem with hmem | ⟨heq, -⟩
      · obtain ⟨e', he', hx⟩ := h.outcomes x hx hmem
        exact ⟨e', List.mem_append_left _ he', hx⟩
      · refine ⟨e, List.mem_append_right _ (List.mem_singleton_self e), by rw [hekey, heq], ?_⟩
        rw [he, ← h.originalDecision_eq hx, heq]
        rfl
    · rcases (hmem_recorded k).mp hk with hk | ⟨rfl, hdecided⟩
      · exact h.known k hk
      · exact hdecided

theorem step_reload {verifyIntegrity : Bool} {version : Str} (h : KeptReputation P w) :
    KeptReputation P (w.step P (.reload verifyIntegrity version)) := by
  obtain ⟨file, hflush, hload⟩ := h.entries.exists_reload
  unfold WatchedReputation.step
  dsimp only
  rw [hflush]
  dsimp only
  rw [hload]
  exact ⟨⟨h.entries.linked, h.entries.valid, h.entries.keys, h.entries.nodup⟩, h.decided,
    h.mem_recorded, h.outcomes, h.known⟩

theorem step {a : ReputationAction} (h : KeptReputation P w) (hok : Unambiguous w a) :
    KeptReputation P (w.step P a) := by
  cases a with
  | append a => exact h.step_append hok
  | recordOutcome o => exact h.step_recordOutcome
  | reload verifyIntegrity version => exact h.step_reload

theorem faithful (h : KeptReputation P w) : FaithfulReputation P w := by
  refine ⟨h.entries.verified, fun verifyIntegrity version => ?_, ?_, fun x hx o hkey hnot hversion => ?_,
    fun x hx hmem => ⟨h.outcomes x hx hmem, fun o hkey => ?_⟩⟩
  · obtain ⟨file, hflush, hload⟩ := h.entries.exists_reload
    exact ⟨file, _, hflush, hload verifyIntegrity version, rfl, rfl, rfl⟩
  · exact h.entries.keys ▸ h.entries.nodup
  · obtain ⟨e, he, hekey, hdecision⟩ := h.decided x hx
    have hwritten := h.entries.written he
    have horiginal : w.ledger.originalDecision o.key = x.2 := hkey ▸ h.originalDecision_eq hx
    have hfields : (e.reviewerId, e.mutationId, e.epochId) = (o.reviewerId, o.mutationId, o.epochId) :=
      hekey.trans hkey.symm
    obtain ⟨hreviewer, hrest⟩ := Prod.mk.inj hfields
    obtain ⟨hmutation, hepoch⟩ := Prod.mk.inj hrest
    have hadmitted : w.ledger.Admitted (w.ledger.outcomeReview o) :=
      { decision := by
          show w.ledger.originalDecision o.key ∈ validDecisions
          rw [horiginal, ← hdecision]
          exact h.entries.valid e he
        key := by
          show outcomeKey o.key ∉ w.ledger.decisionKeys
          rw [hkey]
          exact mt (h.mem_recorded x hx).mpr hnot
        reviewerId := by
          show Encodable o.reviewerId
          rw [← hreviewer]
          exact hwritten.encodes.reviewerId
        epochId := by
          show Encodable o.epochId
          rw [← hepoch]
          exact hwritten.encodes.epochId
        mutationId := by
          refine Encodable.append (hmutation ▸ hwritten.encodes.mutationId) ?_
          exact encodable_of_ascii (by decide)
        version := hversion }
    obtain ⟨e', l, happend⟩ := (ReviewerReputationLedger.exists_append_iff (P := P)
      (h.entries.encodable_prevEntryHash _)).mpr hadmitted
    obtain ⟨-, -, entryHash, -, he', hl⟩ := ReviewerReputationLedger.append_eq_ok happend
    refine ⟨e', l, happend, ?_, ?_, ?_, by rw [hl]⟩
    · rw [he', ← hkey]
      rfl
    · rw [he', ← horiginal]
      rfl
    · rw [he']
      rfl
  · refine (ReviewerReputationLedger.append_of_mem ?_ ?_).trans ?_
    · show w.ledger.originalDecision o.key ∈ validDecisions
      obtain ⟨e, he, hekey, hdecision⟩ := h.decided x hx
      rw [hkey, h.originalDecision_eq hx, ← hdecision]
      exact h.entries.valid e he
    · show outcomeKey o.key ∈ w.ledger.decisionKeys
      rw [hkey]
      exact (h.mem_recorded x hx).mp hmem
    · show _ = Except.error (ReputationError.duplicateReview (outcomeKey x.1))
      rw [← hkey]
      rfl

theorem unambiguous {a : ReputationAction} (h : KeptReputation P w)
    (hnext : FaithfulReputation P (w.step P a)) : Unambiguous w a := by
  cases a with
  | recordOutcome o => trivial
  | reload verifyIntegrity version => trivial
  | append a =>
    intro hadmitted
    obtain ⟨e, l, happend⟩ := (ReviewerReputationLedger.exists_append_iff (P := P)
      (h.entries.encodable_prevEntryHash a)).mpr hadmitted
    obtain ⟨-, -, entryHash, -, -, hl⟩ := ReviewerReputationLedger.append_eq_ok happend
    have hstep : w.step P (.append a) = ⟨l, w.decided ++ [(a.key, a.decision)], w.recorded⟩ := by
      unfold WatchedReputation.step
      dsimp only
      rw [happend]
    rw [hstep] at hnext
    -- the outcome of a decision is not recorded yet, so its key is free
    have hfree : ∀ x ∈ w.decided ++ [(a.key, a.decision)], x.1 ∉ w.recorded →
        outcomeKey x.1 ∉ w.ledger.decisionKeys ++ [a.key] := by
      intro x hx hnot hmem
      obtain ⟨e', l', hrecord, -⟩ := hnext.outcome x hx
        ⟨x.1.1, x.1.2.1, x.1.2.2, true, a.scoringAlgorithmVersion⟩ rfl hnot
        (by rw [hl]; exact hadmitted.version)
      obtain ⟨-, hkey, -⟩ := ReviewerReputationLedger.append_eq_ok hrecord
      rw [hl] at hkey
      exact hkey hmem
    refine ⟨fun hmem => ?_, fun x hx hnot heq => ?_⟩
    · refine hfree (a.key, a.decision) (List.mem_append_right _ (List.mem_singleton_self _))
        (fun hrecorded => ?_) (List.mem_append_left _ hmem)
      exact hadmitted.key (h.mem_keys_of_decided (h.known _ hrecorded))
    · exact hfree x (List.mem_append_left _ hx) hnot
        (List.mem_append_right _ (List.mem_singleton.mpr heq.symm))

end KeptReputation

/-- A run keeps the ledger faithful in all its states exactly when no decision that it appends is called
what the outcome of another one is called, or has an outcome that is recorded already. -/
theorem always_faithfulReputation_iff (version : Str) (as : List ReputationAction) :
    Run.Always (WatchedReputation.step P) (FaithfulReputation P) (.new version) as ↔
      Run.Meets (WatchedReputation.step P) Unambiguous (.new version) as :=
  Run.always_iff_meets_of_kept (fun _ (h : KeptReputation P _) => h.faithful)
    (fun _ _ h hok => h.step hok) (fun _ _ h hnext => h.unambiguous hnext) (KeptReputation.new version)

def rejection (mutationId : Str) : Review :=
  ⟨str "r", str "e", mutationId, str "reject", 3, none, none⟩

/-- The outcome of a decision whose mutation is called `m` cannot be recorded where another mutation is
called `m:outcome`. -/
theorem not_always_faithfulReputation :
    ¬ ∀ as, Run.Always (WatchedReputation.step reference) (FaithfulReputation reference) (.new (str "1.0")) as := by
  intro h
  have hlast := (h [.append (rejection (str "m:outcome")), .append (rejection (str "m"))]).last
  generalize hrun : Run.run (WatchedReputation.step reference) (.new (str "1.0"))
    [.append (rejection (str "m:outcome")), .append (rejection (str "m"))] = w at hlast
  have hfacts : (((str "r", str "m", str "e"), str "reject") ∈ w.decided ∧
      (str "r", str "m", str "e") ∉ w.recorded) ∧ w.ledger.scoringAlgorithmVersion = str "1.0" ∧
      w.ledger.recordOutcome reference ⟨str "r", str "m", str "e", true, none⟩ =
        .error (.duplicateReview (str "r", str "m:outcome", str "e")) := by
    rw [← hrun]
    decide +kernel
  obtain ⟨⟨hdecided, hnot⟩, hversion, hraised⟩ := hfacts
  obtain ⟨e, l, hrecord, -⟩ := hlast.outcome _ hdecided ⟨str "r", str "m", str "e", true, none⟩ rfl hnot
    (by
      show Encodable w.ledger.scoringAlgorithmVersion
      rw [hversion]
      exact encodable_of_ascii (by decide))
  rw [hraised] at hrecord
  cases hrecord

end Adaad.Governance
