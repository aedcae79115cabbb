import Adaad.Chain
import Adaad.Dorkllm.SelfAmendment
import Adaad.Py.Json.Equiv.Flat

/-!
# The amendment ledger

What the engine appends is flat, so it is read back item by item, and the digest over the record
that is read is the one over the record that was written.  Hence `_verify_chain` accepts what was
appended exactly when each record was chained to the digest of the one before it (`accepted_iff`).
-/

namespace Adaad.SelfAmendment

open Py

variable {P : Platform}

/-! ### Appends -/

/-- A record that can be chained: it is flat, and the keys of the chain are not in it. -/
structure Regular (record : Record P) : Prop where
  keys : ∃ ks : List Str, record.map Prod.fst = ks.map Key.str ∧
    (ks ++ [prevDigestKey, digestKey]).Nodup ∧ ∀ k ∈ ks, ∀ c ∈ k, c < 127
  flat : ∀ m ∈ record, m.2.Flat

variable (P) in
/-- A record, and the head that it was chained to. -/
structure Append where
  head : Str
  record : Record P
  head_ascii : ∀ c ∈ head, c < 127
  regular : Regular record

def Append.payload (a : Append P) : Record P :=
  a.record ++ [text prevDigestKey a.head]

def Append.digest (a : Append P) : Str :=
  hmacDigest P (canonicalJson P (.dict a.payload))

def Append.entry (a : Append P) : Record P :=
  ledgerEntry a.head a.record

def Append.line (a : Append P) : Str :=
  dumpsAscii P .spaced (.dict a.entry)

variable (P) in
def chainFormat : Chain.Format Str (Append P) where
  prev := Append.head
  hash := Append.digest
  digest h a := some (hmacDigest P (canonicalJson P (.dict (a.record ++ [text prevDigestKey h]))))

theorem links_iff {h : Str} {a : Append P} : (chainFormat P).Links h a ↔ a.head = h := by
  constructor
  · exact And.left
  · rintro rfl
    exact ⟨rfl, rfl⟩

/-! ### Entries -/

theorem readAscii_of_printable {s : Str} (h : ∀ c ∈ s, c < 127) : readAscii s = s :=
  readAscii_of_ascii fun c hc => (h c hc).trans (by decide)

theorem ascii_hmacDigest (payload : Str) : ∀ c ∈ hmacDigest P payload, c < 127 :=
  fun c hc => lt_of_isHexDigit (P.isHexDigit_sha256 _ c hc)

private theorem get_append_of_ne (ms : Record P) {k k' : Str} (hk : k ≠ k') (v : Str) :
    get (ms ++ [text k' v]) k = get ms k := by
  unfold Py.get
  rw [List.find?_append]
  have hnone : ([text k' v] : Record P).find? (fun m => m.1.is k) = none := by
    rw [List.find?_eq_none]
    intro m hm his
    rw [List.mem_singleton.mp hm, Key.is_iff] at his
    exact hk (Key.str.inj his).symm
  rw [hnone, Option.or_none]

theorem get_ledgerEntry (head : Str) (record : Record P) {k : Str}
    (hk : k ≠ prevDigestKey ∧ k ≠ digestKey) : get (ledgerEntry head record) k = get record k := by
  unfold ledgerEntry
  rw [get_append_of_ne _ hk.2, get_append_of_ne _ hk.1]

namespace Append

variable (a : Append P)

theorem entry_eq : a.entry = a.payload ++ [text digestKey a.digest] := rfl

private theorem keys_entry : ∃ ks : List Str, a.record.map Prod.fst = ks.map Key.str ∧
    a.entry.map Prod.fst = (ks ++ [prevDigestKey, digestKey]).map Key.str ∧
    (ks ++ [prevDigestKey, digestKey]).Nodup ∧
    ∀ k ∈ ks ++ [prevDigestKey, digestKey], ∀ c ∈ k, c < 127 := by
  obtain ⟨ks, hks, hnodup, hascii⟩ := a.regular.keys
  refine ⟨ks, hks, ?_, hnodup, fun k hk => ?_⟩
  · rw [entry_eq, payload, List.map_append, List.map_append, List.map_append, hks,
      List.append_assoc]
    rfl
  · have hchain : ∀ k ∈ [prevDigestKey, digestKey], ∀ c ∈ k, c < 127 := by decide
    rcases List.mem_append.mp hk with hk | hk
    · exact hascii k hk
    · exact hchain k hk

theorem flat_entry : FlatDict a.entry := by
  obtain ⟨ks, -, hentry, hnodup, hascii⟩ := a.keys_entry
  refine ⟨fun m hm => ?_, ?_, fun m hm => ?_⟩
  · have hmem : m.1 ∈ (ks ++ [prevDigestKey, digestKey]).map Key.str :=
      hentry ▸ List.mem_map_of_mem hm
    obtain ⟨k, hk, hkey⟩ := List.mem_map.mp hmem
    exact ⟨k, hkey.symm, hascii k hk⟩
  · rw [hentry]
    exact hnodup.map fun s t h => Key.str.inj h
  · rw [entry_eq, payload, List.append_assoc, List.mem_append] at hm
    rcases hm with hm | hm
    · exact a.regular.flat m hm
    · rcases List.mem_cons.mp hm with rfl | hm
      · trivial
      · rw [List.mem_singleton.mp hm]
        trivial

theorem flat_payload : FlatDict a.payload where
  ascii m hm := a.flat_entry.ascii m (List.mem_append_left _ hm)
  nodup := by
    have hnodup := a.flat_entry.nodup
    rw [entry_eq, List.map_append] at hnodup
    exact hnodup.of_append_left
  flat m hm := a.flat_entry.flat m (List.mem_append_left _ hm)

private theorem notMem_record {k : Str} (hk : k ∈ [prevDigestKey, digestKey]) :
    Key.str k ∉ a.record.map Prod.fst := by
  obtain ⟨ks, hks, -, hnodup, -⟩ := a.keys_entry
  rw [hks]
  intro hmem
  obtain ⟨k', hk', heq⟩ := List.mem_map.mp hmem
  exact List.disjoint_of_nodup_append hnodup hk' (Key.str.inj heq ▸ hk)

theorem get_payload_prevDigest : get a.payload prevDigestKey = some (.str a.head) := by
  rw [payload, get_append_of_eq_none (get_eq_none_of_notMem (a.notMem_record (by simp)))]
  exact get_cons_self _ _ _

theorem get_payload_digest : get a.payload digestKey = none := by
  have hne : digestKey ≠ prevDigestKey := by decide
  rw [payload, get_append_of_ne _ hne]
  exact get_eq_none_of_notMem (a.notMem_record (by simp))

theorem get_entry_digest : get a.entry digestKey = some (.str a.digest) := by
  rw [entry_eq, get_append_of_eq_none a.get_payload_digest]
  exact get_cons_self _ _ _

theorem without_entry : without a.entry digestKey = a.payload := by
  have hpayload : without a.payload digestKey = a.payload := by
    refine List.filter_eq_self.mpr fun m hm => ?_
    have hnone := a.get_payload_digest
    unfold Py.get at hnone
    rw [Option.map_eq_none_iff, List.find?_eq_none] at hnone
    simpa using hnone m hm
  have hdigest : without [text (P := P) digestKey a.digest] digestKey = [] := by
    simp [without, text, Key.is]
  rw [entry_eq, without_append, hpayload, hdigest, List.append_nil]

/-! ### Lines -/

theorem loads_line : loads P a.line = some (.dict (readItems a.entry)) :=
  loads_dumpsAscii_dict P .spaced a.flat_entry

theorem strip_line : strip a.line = a.line :=
  strip_dumpsAscii_dict P .spaced a.entry

theorem line_ne_nil : a.line ≠ [] := by
  obtain ⟨t, ht⟩ := exists_dumps_dict (P := P) .spaced a.entry
  unfold line dumpsAscii
  rw [ht]
  exact fun h => nomatch h

theorem verifyLines_cons (prev : Str) (count : Nat) (lines : List Str) :
    verifyLines P prev count (a.line :: lines) =
      if a.head = prev then verifyLines P a.digest (count + 1) lines
      else some (false, count, str "prev_digest mismatch at record " ++ natText count) := by
  have hdigest : readAscii a.digest = a.digest := readAscii_of_printable (ascii_hmacDigest _)
  have hcanonical : canonicalJson P (.dict (readItems a.payload)) =
      canonicalJson P (.dict a.payload) := by
    unfold canonicalJson
    rw [dumpsSortedAscii_readItems P .compact a.flat_payload]
  have hexpected : hmacDigest P (canonicalJson P (.dict (readItems a.payload))) = a.digest := by
    rw [hcanonical]
    rfl
  rw [verifyLines, if_neg (by rw [a.strip_line]; exact a.line_ne_nil), a.loads_line]
  dsimp only
  rw [without_readItems, a.without_entry, hexpected, get_readItems, a.get_entry_digest,
    get_readItems, a.get_payload_prevDigest]
  simp only [Option.map_some, Option.getD_some, Value.mapStr, hdigest,
    readAscii_of_printable a.head_ascii, isText, beq_self_eq_true, Bool.not_true, Bool.false_eq_true,
    if_false, Bool.not_eq_true', beq_eq_false_iff_ne, ne_eq, ite_not]

end Append

theorem verifyLines_iff (as : List (Append P)) (prev : Str) (count : Nat) :
    (∃ r, verifyLines P prev count (as.map Append.line) = some r ∧ r.1 = true) ↔
      (chainFormat P).Valid prev as := by
  induction as generalizing prev count with
  | nil => exact iff_of_true ⟨_, rfl, rfl⟩ trivial
  | cons a as ih =>
    rw [List.map_cons, a.verifyLines_cons, Chain.Format.valid_cons, links_iff]
    by_cases hlink : a.head = prev
    · rw [if_pos hlink, ih]
      exact (and_iff_right hlink).symm
    · rw [if_neg hlink]
      refine iff_of_false ?_ fun h => hlink h.1
      rintro ⟨r, hr, htrue⟩
      rw [← Option.some.inj hr] at htrue
      exact nomatch htrue

theorem splitlines_ledgerText (as : List (Append P)) :
    splitlines (ledgerText (as.map Append.entry)) = as.map Append.line := by
  have htext : ledgerText (as.map Append.entry) =
      (as.map Append.line).flatMap (· ++ [lf]) := by
    rw [ledgerText, List.flatMap_map, List.flatMap_map]
    rfl
  have hlf : lineBoundary lf = true := by decide
  rw [htext]
  refine splitLines_flatMap hlf fun l hl => ?_
  obtain ⟨a, -, rfl⟩ := List.mem_map.mp hl
  refine ⟨a.line_ne_nil, fun c hc => ?_⟩
  obtain ⟨hle, hlt⟩ := printable_of_mem_dumpsAscii P hc
  have hprintable : ∀ c < 127, 32 ≤ c → lineBoundary c = false := by decide
  exact hprintable c hlt hle

variable (P) in
/-- `_verify_chain` accepts the ledger file. -/
def Accepted (file : Option Str) : Prop :=
  ∃ r, verifyChain P file = some r ∧ r.1 = true

theorem accepted_iff (as : List (Append P)) :
    Accepted P (ledgerFile (as.map Append.entry)) ↔ (chainFormat P).Valid genesisDigest as := by
  rw [← verifyLines_iff as genesisDigest 0]
  unfold Accepted
  cases as with
  | nil => exact iff_of_true ⟨_, rfl, rfl⟩ ⟨_, rfl, rfl⟩
  | cons a as =>
    have hne : (a :: as).map Append.entry ≠ [] := fun h => nomatch h
    rw [ledgerFile, if_neg hne, verifyChain, splitlines_ledgerText]

/-! ### Looking for a content hash -/

theorem isText_iff {s : Str} {v : P.Obj} : isText P s v = true ↔ v = .str s := by
  cases v <;> simp [isText]

theorem Append.matchContentHash_eq_some {a : Append P} {contentHash : Str} {existing : Record P} :
    matchContentHash P contentHash a.line = some existing ↔
      existing = readItems a.entry ∧ get existing contentHashKey = some (.str contentHash) := by
  unfold matchContentHash
  rw [if_neg (by rw [a.strip_line]; exact a.line_ne_nil), a.loads_line]
  dsimp only
  have hmatch : ((get (readItems a.entry) contentHashKey).map (isText P contentHash)).getD false =
      true ↔ get (readItems a.entry) contentHashKey = some (.str contentHash) := by
    rcases hv : get (readItems a.entry) contentHashKey with _ | v
    · exact iff_of_false nofun nofun
    · rw [Option.map_some, Option.getD_some, isText_iff, Option.some.injEq]
  rw [Option.ite_none_right_eq_some, hmatch, Option.some.injEq]
  constructor
  · rintro ⟨hget, rfl⟩
    exact ⟨rfl, hget⟩
  · rintro ⟨rfl, hget⟩
    exact ⟨hget, rfl⟩

theorem loadExistingAmendment_eq (as : List (Append P)) (contentHash : Str) :
    loadExistingAmendment P (ledgerFile (as.map Append.entry)) contentHash =
      as.findSome? fun a => matchContentHash P contentHash a.line := by
  unfold loadExistingAmendment ledgerFile
  cases as with
  | nil => rfl
  | cons a as =>
    have hne : (a :: as).map Append.entry ≠ [] := fun h => nomatch h
    rw [if_neg hne, Option.bind_some, splitlines_ledgerText, List.findSome?_map]
    rfl

theorem exists_of_loadExistingAmendment (as : List (Append P)) {contentHash : Str}
    {existing : Record P}
    (h : loadExistingAmendment P (ledgerFile (as.map Append.entry)) contentHash = some existing) :
    ∃ a ∈ as, existing = readItems a.entry ∧
      get existing contentHashKey = some (.str contentHash) := by
  rw [loadExistingAmendment_eq] at h
  obtain ⟨a, ha, hmatch⟩ := List.exists_of_findSome?_eq_some h
  exact ⟨a, ha, Append.matchContentHash_eq_some.mp hmatch⟩

theorem exists_loadExistingAmendment {as : List (Append P)} {a : Append P} (ha : a ∈ as)
    {contentHash : Str} (h : get (readItems a.entry) contentHashKey = some (.str contentHash)) :
    ∃ existing,
      loadExistingAmendment P (ledgerFile (as.map Append.entry)) contentHash = some existing := by
  rw [loadExistingAmendment_eq, ← Option.isSome_iff_exists, List.findSome?_isSome_iff]
  refine ⟨a, ha, ?_⟩
  rw [Append.matchContentHash_eq_some.mpr ⟨rfl, h⟩]
  rfl

end Adaad.SelfAmendment
