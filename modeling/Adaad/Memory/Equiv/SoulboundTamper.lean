import Adaad.Memory.Equiv.SoulboundInterleaving

/-!
# What the verification of a soulbound ledger detects

The verification reads seven texts of each entry, and an unreadable file as one that has no entries.
Of what becomes of a file it rejects what is read as other entries than a beginning of those that
were accepted (`tamperEvident_iff`).
-/

namespace Adaad.Memory

open Py

variable {P : Platform} {c : LedgerConfig P}

/-! ### What is signed -/

def LedgerEntry.signable (e : LedgerEntry) : Members P.Float :=
  [(.str (str "entry_id"), .str e.entryId),
   (.str (str "epoch_id"), .str e.epochId),
   (.str (str "context_type"), .str e.contextType),
   (.str (str "context_digest"), .str e.contextDigest),
   (.str (str "chain_hash"), .str e.chainHash),
   (.str (str "schema_version"), .str e.schemaVersion)]

def LedgerEntry.sortedSignable (e : LedgerEntry) : Members P.Float :=
  [(.str (str "chain_hash"), .str e.chainHash),
   (.str (str "context_digest"), .str e.contextDigest),
   (.str (str "context_type"), .str e.contextType),
   (.str (str "entry_id"), .str e.entryId),
   (.str (str "epoch_id"), .str e.epochId),
   (.str (str "schema_version"), .str e.schemaVersion)]

theorem sortKeys_signable (e : LedgerEntry) :
    sortKeys P (.dict e.signable) = some (.dict e.sortedSignable) := by
  refine (sortKeys_dict_eq_some P).mpr ⟨e.signable, (sortKeysMembers_eq_some P).mpr ?_, rfl, rfl⟩
  exact .cons ⟨rfl, rfl⟩ (.cons ⟨rfl, rfl⟩ (.cons ⟨rfl, rfl⟩ (.cons ⟨rfl, rfl⟩ (.cons ⟨rfl, rfl⟩
    (.cons ⟨rfl, rfl⟩ .nil)))))

theorem image_sortedSignable (e : LedgerEntry) :
    image P (.dict e.sortedSignable) = .dict e.sortedSignable := by
  rw [image_dict_of_names [str "chain_hash", str "context_digest", str "context_type",
    str "entry_id", str "epoch_id", str "schema_version"] rfl (by decide)]
  rfl

theorem signableBytes_eq_ok {e : LedgerEntry} {data : Bytes} :
    e.signableBytes P = .ok data ↔ encode (dumps P .compact (.dict e.sortedSignable)) = some data := by
  have htext : canonicalJson P (.dict e.signable) =
      .ok (dumps P .compact (.dict e.sortedSignable)) := by
    unfold canonicalJson dumpsSorted
    rw [sortKeys_signable]
    rfl
  have hbytes : e.signableBytes P = encodeText (dumps P .compact (.dict e.sortedSignable)) := by
    unfold LedgerEntry.signableBytes
    exact congrArg (· >>= encodeText) htext
  rw [hbytes]
  unfold encodeText
  cases encode (dumps P .compact (.dict e.sortedSignable)) with
  | none => exact iff_of_false (fun h => by cases h) fun h => by cases h
  | some b => exact ⟨fun h => congrArg some (Except.ok.inj h), fun h => congrArg _ (Option.some.inj h)⟩

theorem sortedSignable_eq_of_signableBytes_eq {e a : LedgerEntry} {data : Bytes}
    (he : e.signableBytes P = .ok data) (ha : a.signableBytes P = .ok data) :
    e.sortedSignable (P := P) = a.sortedSignable := by
  have hdecode := decode_encode (signableBytes_eq_ok.mp he)
  rw [decode_encode (signableBytes_eq_ok.mp ha)] at hdecode
  have hloads := congrArg (loads P) (Option.some.inj hdecode)
  rw [loads_dumps, loads_dumps, image_sortedSignable, image_sortedSignable] at hloads
  exact (Value.dict.inj (Option.some.inj hloads)).symm

theorem eq_of_signed {e a : LedgerEntry} (he : Signed c e) (ha : Signed c a)
    (heq : e.signableBytes P = a.signableBytes P) : e = a := by
  obtain ⟨key, data, hkey, hdata, hsignature⟩ := he
  obtain ⟨key', data', hkey', hdata', hsignature'⟩ := ha
  obtain rfl := Option.some.inj (hkey.symm.trans hkey')
  obtain rfl := Except.ok.inj (hdata.symm.trans (heq.trans hdata'))
  have hfields := sortedSignable_eq_of_signableBytes_eq hdata hdata'
  obtain ⟨entryId, epochId, contextType, contextDigest, chainHash, hmacSignature, schemaVersion⟩ := e
  obtain ⟨entryId', epochId', contextType', contextDigest', chainHash', hmacSignature', schemaVersion'⟩ := a
  obtain rfl : hmacSignature = hmacSignature' := hsignature.trans hsignature'.symm
  injection hfields with h₁ hfields
  injection hfields with h₂ hfields
  injection hfields with h₃ hfields
  injection hfields with h₄ hfields
  injection hfields with h₅ hfields
  injection hfields with h₆ hfields
  obtain rfl := Value.str.inj (Prod.mk.inj h₁).2
  obtain rfl := Value.str.inj (Prod.mk.inj h₂).2
  obtain rfl := Value.str.inj (Prod.mk.inj h₃).2
  obtain rfl := Value.str.inj (Prod.mk.inj h₄).2
  obtain rfl := Value.str.inj (Prod.mk.inj h₅).2
  obtain rfl := Value.str.inj (Prod.mk.inj h₆).2
  rfl

/-! ### Links -/

theorem computeChainHash_eq_ok {prev digest hash : Str} :
    computeChainHash P prev digest = .ok hash ↔
      ∃ b, encode (prev ++ digest) = some b ∧ hash = P.sha256 b := by
  unfold computeChainHash encodeText
  cases encode (prev ++ digest) with
  | none =>
    refine iff_of_false (fun h => by cases h) ?_
    rintro ⟨b, h, -⟩
    cases h
  | some b =>
    constructor
    · intro h
      exact ⟨b, rfl, (Except.ok.inj h).symm⟩
    · rintro ⟨b', hb, rfl⟩
      obtain rfl := Option.some.inj hb
      rfl

variable (P) in
/-- The texts that are hashed for the chain of these entries, or would be for other orders of them. -/
def hashedTexts (entries : List LedgerEntry) : List Str :=
  genesisText :: (genesisChainHash P :: entries.map LedgerEntry.chainHash).flatMap fun prev =>
    entries.map fun e => prev ++ e.contextDigest

variable (P) in
def CollisionFree (texts : List Str) : Prop :=
  ∀ s ∈ texts, ∀ t ∈ texts, P.sha256 ((encode s).getD []) = P.sha256 ((encode t).getD []) → s = t

theorem mem_hashedTexts {entries : List LedgerEntry} {prev : Str} {e : LedgerEntry}
    (hprev : prev ∈ genesisChainHash P :: entries.map LedgerEntry.chainHash) (he : e ∈ entries) :
    prev ++ e.contextDigest ∈ hashedTexts P entries :=
  List.mem_cons_of_mem _ (List.mem_flatMap.mpr ⟨prev, hprev, List.mem_map_of_mem he⟩)

theorem LinkedTo.sha256_eq {prev : Str} {e : LedgerEntry} (h : LinkedTo (P := P) prev e) :
    P.sha256 ((encode (prev ++ e.contextDigest)).getD []) = e.chainHash := by
  obtain ⟨b, hb, hhash⟩ := computeChainHash_eq_ok.mp h
  rw [hb, hhash]
  rfl

theorem Intact.exists_follows {entries : List LedgerEntry} (h : Intact c entries) {e : LedgerEntry}
    (he : e ∈ entries) :
    ∃ prev ∈ genesisChainHash P :: entries.map LedgerEntry.chainHash, Follows c prev e := by
  obtain ⟨as, bs, rfl⟩ := List.append_of_mem he
  exact ⟨_, Chain.lastHash_mem _ as (e :: bs), (Chain.linked_append.mp h).2.1⟩

theorem Intact.length_hash {entries : List LedgerEntry} (h : Intact c entries) {hash : Str}
    (hhash : hash ∈ genesisChainHash P :: entries.map LedgerEntry.chainHash) : hash.length = 64 := by
  rcases List.mem_cons.mp hhash with rfl | hmem
  · exact P.length_sha256 _
  · obtain ⟨e, he, rfl⟩ := List.mem_map.mp hmem
    obtain ⟨prev, -, hfollows⟩ := h.exists_follows he
    rw [← hfollows.1.sha256_eq]
    exact P.length_sha256 _

theorem Intact.prev_eq {entries : List LedgerEntry} (h : Intact c entries)
    (hfree : CollisionFree P (hashedTexts P entries)) {p q : Str}
    (hp : p ∈ genesisChainHash P :: entries.map LedgerEntry.chainHash)
    (hq : q ∈ genesisChainHash P :: entries.map LedgerEntry.chainHash) {e e' : LedgerEntry}
    (he : e ∈ entries) (he' : e' ∈ entries) (hfollows : Follows c p e) (hfollows' : Follows c q e')
    (heq : e.chainHash = e'.chainHash) : p = q := by
  have htexts := hfree _ (mem_hashedTexts hp he) _ (mem_hashedTexts hq he')
    (hfollows.1.sha256_eq.trans (heq.trans hfollows'.1.sha256_eq.symm))
  exact (List.append_inj htexts ((h.length_hash hp).trans (h.length_hash hq).symm)).1

theorem Intact.chainHash_ne {entries : List LedgerEntry} (h : Intact c entries)
    (hfree : CollisionFree P (hashedTexts P entries)) {e : LedgerEntry} (he : e ∈ entries) :
    e.chainHash ≠ genesisChainHash P := by
  intro heq
  obtain ⟨prev, hprev, hfollows⟩ := h.exists_follows he
  have htexts := hfree _ (mem_hashedTexts hprev he) genesisText List.mem_cons_self
    (hfollows.1.sha256_eq.trans heq)
  have hlength := congrArg List.length htexts
  rw [List.length_append, h.length_hash hprev] at hlength
  have hgenesis : genesisText.length = 23 := rfl
  omega

theorem Intact.prefix_of_subset {accepted entries : List LedgerEntry} (h : Intact c accepted)
    (hfree : CollisionFree P (hashedTexts P accepted)) (hentries : Intact c entries)
    (hsub : ∀ e ∈ entries, e ∈ accepted) : entries <+: accepted := by
  refine Chain.prefix_of_linked h ?_ ?_ hentries hsub
  · exact Chain.nodup_hashes h (fun e he => h.chainHash_ne hfree he)
      fun p hp q hq e he e' he' hfollows hfollows' heq =>
        h.prev_eq hfree hp hq he he' hfollows hfollows' heq
  · exact fun p hp q hq e he hfollows hfollows' => h.prev_eq hfree hp hq he he hfollows hfollows' rfl

theorem Intact.of_prefix {accepted entries : List LedgerEntry} (h : Intact c accepted)
    (hbegins : entries <+: accepted) : Intact c entries := by
  obtain ⟨rest, rfl⟩ := hbegins
  exact (Chain.linked_append.mp h).1

/-! ### What the verification raises -/

variable (P) in
/-- The texts of an entry are encoded where it is verified after a hash. -/
def Checks (prev : Str) (e : LedgerEntry) : Prop :=
  (∃ hash, computeChainHash P prev e.contextDigest = .ok hash) ∧
    (LinkedTo (P := P) prev e → ∃ data, e.signableBytes P = .ok data)

variable (c) in
/-- The texts of all entries are encoded.  After an entry that does not follow, the others are verified
after the hash that it does not follow. -/
def Checkable : Str → List LedgerEntry → Prop
  | _, [] => True
  | prev, e :: es => Checks P prev e ∧ (Follows c prev e → Checkable e.chainHash es) ∧
      (¬ Follows c prev e → ∀ e' ∈ es, Checks P prev e')

theorem exists_verifyEntry_iff {prev : Str} {failures : List Str} {raw : Members P.Float} :
    (∃ s, verifyEntry c (prev, failures) (.dict raw) = .ok s) ↔ Checks P prev (readEntry raw) := by
  unfold verifyEntry Checks LinkedTo
  dsimp only
  cases hchain : computeChainHash P prev (readEntry raw).contextDigest with
  | error e =>
    refine iff_of_false ?_ ?_
    · rintro ⟨s, hs⟩
      cases hs
    · rintro ⟨⟨hash, hhash⟩, -⟩
      cases hhash
  | ok expected =>
    dsimp only [bind, Except.bind, Except.mapError]
    by_cases hlink : (readEntry raw).chainHash ≠ expected
    · rw [if_pos hlink]
      refine iff_of_true ⟨_, rfl⟩ ⟨⟨expected, rfl⟩, fun h => absurd (Except.ok.inj h).symm hlink⟩
    · rw [if_neg hlink]
      cases hdata : (readEntry raw).signableBytes P with
      | error e =>
        refine iff_of_false ?_ ?_
        · rintro ⟨s, hs⟩
          cases hs
        · rintro ⟨-, h⟩
          obtain ⟨data, hdata'⟩ := h (congrArg _ (not_not.mp hlink).symm)
          cases hdata'
      | ok data => exact iff_of_true ⟨_, rfl⟩ ⟨⟨expected, rfl⟩, fun _ => ⟨data, rfl⟩⟩

theorem foldlM_of_failed {prev : Str} {failures : List Str} (hfailed : failures ≠ [])
    {raws : List (Members P.Float)} :
    (∃ s, (raws.map Value.dict).foldlM (verifyEntry c) (prev, failures) = .ok s ∧ s.2 ≠ []) ↔
      ∀ e ∈ raws.map readEntry, Checks P prev e := by
  induction raws generalizing failures with
  | nil => exact iff_of_true ⟨_, rfl, hfailed⟩ fun e he => absurd he List.not_mem_nil
  | cons raw raws ih =>
    have hnext : ∀ {s}, verifyEntry c (prev, failures) (.dict raw) = .ok s →
        ∃ failures', s = (prev, failures') ∧ failures' ≠ [] := fun hs => by
      rcases verifyEntry_eq_ok c hs with ⟨-, rfl⟩ | ⟨-, failure, rfl⟩
      · exact ⟨failures, by rw [if_neg hfailed], hfailed⟩
      · exact ⟨_, rfl, fun h => List.cons_ne_nil _ _ (List.append_eq_nil_iff.mp h).2⟩
    have hraw : (∃ s, verifyEntry c (prev, failures) (.dict raw) = .ok s) ↔
        Checks P prev (readEntry raw) := exists_verifyEntry_iff
    rw [List.map_cons, List.map_cons, List.foldlM_cons, List.forall_mem_cons, ← hraw]
    constructor
    · rintro ⟨s, h, hs⟩
      obtain ⟨s₁, h₁, h⟩ := bind_eq_ok.mp h
      obtain ⟨failures', rfl, hfailed'⟩ := hnext h₁
      exact ⟨⟨_, h₁⟩, (ih hfailed').mp ⟨s, h, hs⟩⟩
    · rintro ⟨⟨s₁, h₁⟩, hchecks⟩
      obtain ⟨failures', rfl, hfailed'⟩ := hnext h₁
      obtain ⟨s, h, hs⟩ := (ih hfailed').mpr hchecks
      exact ⟨s, bind_eq_ok.mpr ⟨_, h₁, h⟩, hs⟩

theorem foldlM_failed_iff {prev : Str} {raws : List (Members P.Float)} :
    (∃ s, (raws.map Value.dict).foldlM (verifyEntry c) (prev, []) = .ok s ∧ s.2 ≠ []) ↔
      Checkable c prev (raws.map readEntry) ∧
        ¬ Chain.Linked (Follows c) LedgerEntry.chainHash prev (raws.map readEntry) := by
  induction raws generalizing prev with
  | nil =>
    refine iff_of_false ?_ fun h => h.2 trivial
    rintro ⟨s, h, hs⟩
    obtain rfl := Except.ok.inj h
    exact hs rfl
  | cons raw raws ih =>
    rw [List.map_cons, List.map_cons, List.foldlM_cons]
    by_cases hfollows : Follows c prev (readEntry raw)
    · rw [verifyEntry_of_follows c hfollows]
      have hchecks := exists_verifyEntry_iff.mp ⟨_, verifyEntry_of_follows c hfollows⟩
      refine (@ih (readEntry raw).chainHash).trans (and_congr ?_ (not_congr ?_))
      · exact ⟨fun h => ⟨hchecks, fun _ => h, fun hnot => absurd hfollows hnot⟩, fun h => h.2.1 hfollows⟩
      · exact (and_iff_right hfollows).symm
    · have hnext : ∀ {s}, verifyEntry c (prev, []) (.dict raw) = .ok s →
          ∃ failure, s = (prev, [failure]) := fun hs => by
        rcases verifyEntry_eq_ok c hs with ⟨h, -⟩ | ⟨-, failure, rfl⟩
        · exact absurd h hfollows
        · exact ⟨failure, rfl⟩
      constructor
      · rintro ⟨s, h, hs⟩
        obtain ⟨s₁, h₁, h⟩ := bind_eq_ok.mp h
        obtain ⟨failure, rfl⟩ := hnext h₁
        have hrest := (foldlM_of_failed (List.cons_ne_nil failure [])).mp ⟨s, h, hs⟩
        exact ⟨⟨exists_verifyEntry_iff.mp ⟨_, h₁⟩, fun hf => absurd hf hfollows, fun _ => hrest⟩,
          fun hlinked => hfollows hlinked.1⟩
      · rintro ⟨⟨hchecks, -, hrest⟩, -⟩
        obtain ⟨s₁, h₁⟩ := exists_verifyEntry_iff.mpr hchecks
        obtain ⟨failure, rfl⟩ := hnext h₁
        obtain ⟨s, h, hs⟩ := (foldlM_of_failed (List.cons_ne_nil failure [])).mpr (hrest hfollows)
        exact ⟨s, bind_eq_ok.mpr ⟨_, h₁, h⟩, hs⟩

theorem exists_members_of_foldlM {values : List P.Obj} {s s' : Str × List Str}
    (h : values.foldlM (verifyEntry c) s = .ok s') :
    ∃ raws : List (Members P.Float), values = raws.map Value.dict := by
  induction values generalizing s with
  | nil => exact ⟨[], rfl⟩
  | cons v values ih =>
    rw [List.foldlM_cons] at h
    obtain ⟨s₁, h₁, h⟩ := bind_eq_ok.mp h
    obtain ⟨raws, rfl⟩ := ih h
    cases v with
    | dict raw => exact ⟨raw :: raws, rfl⟩
    | none | bool | int | float | str | list | tuple => cases h₁

theorem verifyChain_rejects_iff {file : Option Bytes} :
    (∃ failures, verifyChain c file = .ok (false, failures)) ↔
      ∃ entries, readEntries (P := P) file = some entries ∧
        Checkable c (genesisChainHash P) entries ∧ ¬ Intact c entries := by
  have hfold : (∃ failures, verifyChain c file = .ok (false, failures)) ↔
      ∃ s, (allEntries file).foldlM (verifyEntry c) (genesisChainHash P, []) = .ok s ∧ s.2 ≠ [] := by
    unfold verifyChain
    constructor
    · rintro ⟨failures, h⟩
      obtain ⟨s, hs, h⟩ := bind_eq_ok.mp h
      refine ⟨s, hs, fun hnil => ?_⟩
      have hempty := (Prod.mk.inj (Except.ok.inj h)).1
      rw [hnil] at hempty
      cases hempty
    · rintro ⟨s, hs, hne⟩
      refine ⟨s.2, bind_eq_ok.mpr ⟨s, hs, ?_⟩⟩
      rw [List.isEmpty_eq_false_iff.mpr hne]
      rfl
  rw [hfold]
  constructor
  · rintro ⟨s, h, hs⟩
    obtain ⟨raws, hraws⟩ := exists_members_of_foldlM h
    rw [hraws] at h
    refine ⟨raws.map readEntry, ?_, foldlM_failed_iff.mp ⟨s, h, hs⟩⟩
    unfold readEntries
    rw [hraws, List.mapM_map]
    exact mapM_of_forall₂ (List.forall₂_same.mpr fun _ _ => rfl) fun x y hxy => hxy ▸ rfl
  · rintro ⟨entries, hread, h⟩
    obtain ⟨raws, hraws, rfl⟩ := readEntries_eq_some hread
    rw [hraws]
    exact foldlM_failed_iff.mpr h

/-! ### Changes of the file -/

variable (P) in
/-- The entries of a file that is read as a document with a list of them, or does not exist. -/
def storedEntries : Option Bytes → Option (List P.Obj)
  | none => some []
  | some file =>
    match readText file with
    | .error _ => none
    | .ok text =>
      match loads P text with
      | some (.dict payload) =>
        match get payload (str "entries") with
        | some (.list entries) => some entries
        | _ => none
      | _ => none

variable (P) in
/-- The file has become another one, which does not just lack the last entries. -/
def Changed (file file' : Option Bytes) : Prop :=
  ¬ ∃ entries entries', storedEntries P file = some entries ∧ storedEntries P file' = some entries' ∧
    entries' <+: entries

variable (c) in
/-- The file is verified, and what it has become is not, where it has changed. -/
def TamperEvident (file file' : Option Bytes) : Prop :=
  verifyChain c file = .ok (true, []) ∧
    (Changed P file file' → ∃ failures, verifyChain c file' = .ok (false, failures))

variable (c) in
/-- What the file has become is read as entries whose texts are encoded, and which are not the first of
those that were accepted. -/
def Detectable (accepted : List LedgerEntry) (file' : Option Bytes) : Prop :=
  ∃ entries, readEntries (P := P) file' = some entries ∧
    Checkable c (genesisChainHash P) entries ∧ ¬ entries <+: accepted

variable (c) in
/-- Whoever changes the file signs nothing: what has a right signature in it are bytes that the ledger
has signed. -/
def Unforged (accepted : List LedgerEntry) (file' : Option Bytes) : Prop :=
  ∀ entries, readEntries (P := P) file' = some entries → ∀ e ∈ entries, Signed c e →
    ∃ a ∈ accepted, e.signableBytes P = a.signableBytes P

theorem KeptLedgers.rejects_iff {w : WatchedLedgers} (h : KeptLedgers c w) {file' : Option Bytes}
    (hfree : CollisionFree P (hashedTexts P w.accepted)) (hunforged : Unforged c w.accepted file') :
    (∃ failures, verifyChain c file' = .ok (false, failures)) ↔ Detectable c w.accepted file' := by
  refine verifyChain_rejects_iff.trans (exists_congr fun entries => and_congr_right fun hread =>
    and_congr_right fun _ => not_congr ⟨fun hintact => ?_, h.intact.of_prefix⟩)
  refine h.intact.prefix_of_subset hfree hintact fun e he => ?_
  obtain ⟨prev, -, hfollows⟩ := hintact.exists_follows he
  obtain ⟨a, ha, heq⟩ := hunforged entries hread e he hfollows.2
  obtain ⟨prev', -, hfollows'⟩ := h.intact.exists_follows ha
  obtain rfl := eq_of_signed hfollows.2 hfollows'.2 heq
  exact ha

end Adaad.Memory
