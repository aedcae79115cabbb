import Adaad.Governance.MutationLedger
import Adaad.Py.Json.Equiv.InOrder
import Adaad.Run

/-!
# Entries that are read back

The check of a row rebuilds the entry from its JSON with every metric as a `float`.  Where the
metrics are all `float` and reading back keeps the order of their names, the entry that is rebuilt
has the text of the one that was written (`exists_readEntry`).
-/

namespace Adaad.Governance.Ledger

open Py

variable {P : Platform}

/-- Every metric is a `float`. -/
def LedgerEntry.FloatMetrics (e : LedgerEntry P) : Prop :=
  ∀ m ∈ e.metrics, ∃ x, m.2 = .inr x

/-- Pairs of surrogates read as the characters that they stand for, the names of the metrics are in
the same order. -/
def LedgerEntry.NamesInOrder (e : LedgerEntry P) : Prop :=
  ∀ a ∈ Assoc.keys e.metrics, ∀ b ∈ Assoc.keys e.metrics,
    strLe (readAscii a) (readAscii b) = strLe a b

/-! ### The data of an entry -/

theorem map_fst_metricItems (ms : List (Str × Metric P)) :
    (metricItems ms).map Prod.fst = (Assoc.keys ms).map Key.str := by
  unfold metricItems Assoc.keys
  rw [List.map_map, List.map_map]
  rfl

theorem Metric.plain_value (m : Metric P) : m.value.Plain := by
  cases m <;> trivial

theorem Metric.wf_value (m : Metric P) : m.value.WF := by
  cases m <;> trivial

theorem Metric.inOrder_value (m : Metric P) : m.value.InOrder := by
  cases m <;> trivial

theorem plain_metricItems (ms : List (Str × Metric P)) : (Value.dict (metricItems ms)).Plain := by
  rw [Value.Plain, plainMembers_iff]
  exact List.forall_mem_map.mpr fun m hm => ⟨rfl, Metric.plain_value m.2⟩

theorem wf_metricItems {ms : List (Str × Metric P)} (h : (Assoc.keys ms).Nodup) :
    (Value.dict (metricItems ms)).WF := by
  rw [Value.WF, wfMembers_iff, map_fst_metricItems]
  exact ⟨h.map fun a b hab => Key.str.inj hab,
    List.forall_mem_map.mpr fun m hm => Metric.wf_value m.2⟩

namespace LedgerEntry

variable (e : LedgerEntry P)

theorem namedItems : NamedItems e.items :=
  .of_names [str "variant_id", str "seed", str "metrics", str "promoted"] rfl (by decide) (by decide)

theorem plain : (Value.dict e.items).Plain := by
  rw [Value.Plain, plainMembers_iff]
  intro m hm
  simp only [items, List.mem_cons, List.not_mem_nil, or_false] at hm
  rcases hm with rfl | rfl | rfl | rfl
  · exact ⟨rfl, trivial⟩
  · exact ⟨rfl, trivial⟩
  · exact ⟨rfl, plain_metricItems e.metrics⟩
  · exact ⟨rfl, trivial⟩

theorem wf : (Value.dict e.items).WF := by
  rw [Value.WF, wfMembers_iff]
  refine ⟨e.namedItems.nodup, fun m hm => ?_⟩
  simp only [items, List.mem_cons, List.not_mem_nil, or_false] at hm
  rcases hm with rfl | rfl | rfl | rfl
  · trivial
  · trivial
  · exact wf_metricItems e.distinct
  · trivial

variable {e}

theorem NamesInOrder.metrics (h : e.NamesInOrder) :
    (Value.dict (metricItems e.metrics)).InOrder := by
  rw [inOrder_dict]
  refine ⟨⟨List.forall_mem_map.mpr fun m _ => rfl, ?_⟩,
    List.forall_mem_map.mpr fun m _ => Metric.inOrder_value m.2⟩
  refine List.forall_mem_map.mpr fun a ha => List.forall_mem_map.mpr fun b hb => ?_
  exact h a.1 (List.mem_map_of_mem ha) b.1 (List.mem_map_of_mem hb)

theorem NamesInOrder.inOrder (h : e.NamesInOrder) : (Value.dict e.items).InOrder := by
  rw [inOrder_dict]
  refine ⟨e.namedItems.keysInOrder, fun m hm => ?_⟩
  simp only [items, List.mem_cons, List.not_mem_nil, or_false] at hm
  rcases hm with rfl | rfl | rfl | rfl
  · trivial
  · trivial
  · exact h.metrics
  · trivial

end LedgerEntry

/-! ### The text of an entry -/

theorem LedgerEntry.reread_items (e : LedgerEntry P) :
    reread P (.dict e.items) = some e.reloaded := by
  obtain ⟨w, hw⟩ := exists_sortKeys P e.plain
  have hdumps : dumpsSortedAscii P .compact (.dict e.items) = some e.serialized := by
    unfold serialized compactText dumpsSortedAscii dumpsSorted
    rw [hw]
    rfl
  have hread : reread P (.dict e.items) = some (image P (w.mapStr readAscii)) := by
    unfold reread
    rw [hw]
    rfl
  unfold reloaded
  rw [loads_of_dumpsSortedAscii_eq P hdumps, hread]
  rfl

/-! ### Reading it -/

theorem exists_readMetrics (n : Numbers P) {ns : Members P.Float}
    (h : ∀ m ∈ ns, ∃ k x, m = (.str k, .float x)) :
    ∃ ms : List (Str × Metric P), readMetrics n (.dict ns) = .ok ms ∧ metricItems ms = ns := by
  have hmap : ∃ ms : List (Str × Metric P), ns.mapM (fun m => do
      let x ← n.toFloat m.2
      return (toStr P (m.1.value P), (.inr x : Metric P))) = .ok ms ∧ metricItems ms = ns := by
    induction ns with
    | nil => exact ⟨[], rfl, rfl⟩
    | cons m ns ih =>
      obtain ⟨⟨k, x, rfl⟩, hns⟩ := List.forall_mem_cons.mp h
      obtain ⟨ms, hms, heq⟩ := ih hns
      refine ⟨(k, .inr x) :: ms, ?_, ?_⟩
      · rw [List.mapM_cons, hms]
        rfl
      · show (Key.str k, Metric.value (.inr x)) :: metricItems ms = _
        rw [heq]
        rfl
  obtain ⟨ms, hms, heq⟩ := hmap
  refine ⟨ms, ?_, heq⟩
  unfold readMetrics
  exact hms

theorem LedgerEntry.exists_readEntry (n : Numbers P) {e : LedgerEntry P} (hfloat : e.FloatMetrics)
    (hnames : e.NamesInOrder) :
    ∃ obj e', e.reloaded = .dict obj ∧ readEntry n obj = .ok e' ∧ e'.serialized = e.serialized := by
  obtain ⟨obj, hobj, hget⟩ := exists_reread_named P e.namedItems e.plain e.wf hnames.inOrder
  rw [e.reread_items] at hobj
  -- the metrics, sorted and read back
  obtain ⟨w, hw⟩ := exists_sortKeys P (plain_metricItems e.metrics)
  obtain ⟨ws, hws, -, rfl⟩ := (sortKeys_dict_eq_some P).mp hw
  have hmetrics : get obj (str "metrics") =
      some ((Value.dict (sortMembers P ws)).mapStr readAscii) := by
    rw [hget]
    show ((sortKeys P (.dict (metricItems e.metrics))).map _) = _
    rw [hw, Option.map_some]
  have hread := sortKeys_mapStr P hw hnames.metrics
  have hsorted := sortKeys_mapStr P (sortKeys_sortKeys P hw (plain_metricItems e.metrics))
    (hnames.metrics.sortKeys P hw)
  have hwf := (hnames.metrics.sortKeys P hw).wf_mapStr (wf_sortKeys P hw (wf_metricItems e.distinct))
  rw [Value.mapStr, mapStrMembers_eq_map] at hmetrics
  have hreadItems : (Value.dict (sortMembers P ws)).mapStr readAscii =
      .dict ((sortMembers P ws).map fun m => (m.1.mapStr readAscii, m.2.mapStr readAscii)) := by
    rw [Value.mapStr, mapStrMembers_eq_map]
  rw [hreadItems] at hread hsorted hwf
  obtain ⟨ms, hms, hitems⟩ := exists_readMetrics n (fun m hm => by
    obtain ⟨s, hs, rfl⟩ := List.mem_map.mp hm
    obtain ⟨r, hr, hkey, hvalue⟩ := forall₂_mem ((sortKeysMembers_eq_some P).mp hws)
      ((perm_sortMembers P ws).mem_iff.mp hs)
    obtain ⟨q, hq, rfl⟩ := List.mem_map.mp hr
    obtain ⟨x, hx⟩ := hfloat q hq
    rw [hx] at hvalue
    exact ⟨readAscii q.1, x, Prod.ext (by rw [← hkey]; rfl) (by
      rw [← Option.some.inj hvalue]
      rfl)⟩ : ∀ m ∈ (sortMembers P ws).map fun m => (m.1.mapStr readAscii, m.2.mapStr readAscii),
        ∃ k x, m = (.str k, .float x))
  have hnodup : (Assoc.keys ms).Nodup := by
    rw [Value.WF, ← hitems, map_fst_metricItems] at hwf
    exact hwf.1.of_map
  -- the entry
  let e' : LedgerEntry P :=
    { variantId := readAscii e.variantId
      seed := e.seed
      metrics := Assoc.ofItems ms
      promoted := e.promoted
      distinct := Assoc.nodup_keys_ofItems ms }
  refine ⟨obj, e', Option.some.inj hobj, ?_, ?_⟩
  · have hvariant : textAt obj (str "variant_id") = readAscii e.variantId := by
      unfold textAt
      rw [hget]
      rfl
    have hseed : get obj (str "seed") = some (.int e.seed) := hget _
    have hpromoted : get obj (str "promoted") = some (.bool e.promoted) := hget _
    unfold readEntry
    rw [hseed, hmetrics, Option.getD_some, Option.getD_some, hms, hvariant, hpromoted]
    rfl
  · have hcongr : dumpsSorted P .compact (.dict e'.items) =
        dumpsSorted P .compact ((Value.dict e.items).mapStr readAscii) := by
      rw [Value.mapStr, e.namedItems.mapStr_eq]
      refine dumpsSorted_dict_congr P (.cons ⟨rfl, rfl⟩ (.cons ⟨rfl, rfl⟩
        (.cons ⟨rfl, ?_⟩ (.cons ⟨rfl, rfl⟩ .nil))))
      show dumpsSorted P .compact (.dict (metricItems (Assoc.ofItems ms))) =
        dumpsSorted P .compact ((Value.dict (metricItems e.metrics)).mapStr readAscii)
      unfold dumpsSorted
      rw [Assoc.ofItems_eq_self hnodup, hitems, hsorted, hread]
    have hascii := dumpsSortedAscii_mapStr P .compact e.plain hnames.inOrder
    unfold LedgerEntry.serialized compactText
    unfold dumpsSortedAscii at hascii ⊢
    rw [hcongr, hascii]

end Adaad.Governance.Ledger

/-!
## The mutation ledger accepts what it appends

An entry is hashed as it is given and checked as it is read back.  The check accepts an appended row
where the metrics are all `float`, reading back keeps the order of their names, and the key and the
algorithm of the signature are among those of the key metadata (`Condition`); then it accepts the
ledger after every append of a run (`accepts_of_condition`).
-/

namespace Adaad.Governance.Ledger

open Py EventSigning

variable {P : Platform}

/-! ### Hashes -/

theorem ascii_canonicalPayloadHash (e : LedgerEntry P) : ∀ c ∈ canonicalPayloadHash e, c < 128 :=
  ascii_prefixed_sha256 P _

theorem ascii_genesisPrevHash : ∀ c ∈ genesisPrevHash, c < 128 := by
  decide

theorem recordHash_eq_ok {canonical hash : Str} {b : SignatureBundle}
    (h : recordHash P canonical b = .ok hash) :
    (∀ c ∈ hash, c < 128) ∧ hash ≠ [] ∧ Encodable b.signature ∧ Encodable b.signingKeyId ∧
      Encodable b.algorithm := by
  unfold recordHash at h
  cases hb : encode
      (canonical ++ 124 :: (b.signature ++ 124 :: (b.signingKeyId ++ 124 :: b.algorithm))) with
  | none =>
    rw [hb] at h
    cases h
  | some bytes =>
    rw [hb] at h
    obtain rfl := Except.ok.inj h
    have hencodable := exists_encode_iff.mp ⟨bytes, hb⟩
    exact ⟨ascii_prefixed_sha256 P bytes, List.cons_ne_nil _ _,
      fun c hc => hencodable c (by simp [hc]), fun c hc => hencodable c (by simp [hc]),
      fun c hc => hencodable c (by simp [hc])⟩

/-! ### What is read of a row -/

theorem textAt_of_get {row : Members P.Float} {key s : Str} (h : get row key = some (.str s)) :
    textAt row key = s := by
  unfold textAt
  rw [h]
  rfl

theorem objectAt_of_get {row ms : Members P.Float} {key : Str} (h : get row key = some (.dict ms))
    (index : Nat) : objectAt index row key = .ok ms := by
  unfold objectAt
  rw [h]

theorem require_of_true {b : Bool} (h : b = true) (index : Nat) (message : Str) :
    require b index message = .ok () := by
  unfold require
  rw [if_pos h]

namespace LedgerKeyMetadata

variable (k : LedgerKeyMetadata)

def read : LedgerKeyMetadata where
  activeKeyId := readAscii k.activeKeyId
  trustedKeyIds := k.trustedKeyIds.map readAscii
  allowedAlgorithms := k.allowedAlgorithms.map readAscii

theorem flatDict : FlatDict (k.toDict : Members P.Float) := by
  refine (NamedItems.of_names [str "active_key_id", str "trusted_key_ids", str "allowed_algorithms"]
    rfl (by decide) (by decide)).flatDict fun m hm => ?_
  simp only [toDict, List.mem_cons, List.not_mem_nil, or_false] at hm
  rcases hm with rfl | rfl | rfl
  · trivial
  · exact List.forall_mem_map.mpr fun s _ => ⟨s, rfl⟩
  · exact List.forall_mem_map.mpr fun s _ => ⟨s, rfl⟩

theorem readItems_toDict : readItems (k.toDict : Members P.Float) = k.read.toDict := by
  have hlist : ∀ ss : List Str, (Value.list (ss.map .str) : P.Obj).mapStr readAscii =
      .list ((ss.map readAscii).map .str) := by
    intro ss
    rw [Value.mapStr, mapStrList_eq_map, List.map_map, List.map_map]
    rfl
  simp only [readItems, toDict, List.map_cons, List.map_nil, hlist]
  rfl

theorem exists_readKeyMetadata :
    ∃ obj : Members P.Float, reread P (.dict k.toDict) = some (.dict obj) ∧
      readKeyMetadata obj = .ok k.read := by
  obtain ⟨obj, hobj, hget⟩ := exists_reread_flat P (k.flatDict (P := P))
  refine ⟨obj, hobj, ?_⟩
  have hget' : ∀ key, get obj key = get (k.read.toDict : Members P.Float) key := by
    intro key
    rw [hget, ← readItems_toDict, get_readItems]
  have htexts : ∀ ss : List Str, (ss.map (Value.str (F := P.Float))).map (toStr P) = ss := by
    intro ss
    rw [List.map_map]
    exact List.map_id ss
  have hactive : textAt obj (str "active_key_id") = k.read.activeKeyId :=
    textAt_of_get (hget' _)
  have htrusted : textsAt obj (str "trusted_key_ids") = .ok k.read.trustedKeyIds := by
    unfold textsAt
    rw [hget']
    exact congrArg Except.ok (htexts _)
  have hallowed : textsAt obj (str "allowed_algorithms") = .ok k.read.allowedAlgorithms := by
    unfold textsAt
    rw [hget']
    exact congrArg Except.ok (htexts _)
  unfold readKeyMetadata
  rw [htrusted, hallowed, hactive]
  rfl

end LedgerKeyMetadata

theorem flatDict_bundleDict (b : SignatureBundle) : FlatDict (bundleDict b : Members P.Float) := by
  refine (NamedItems.of_names [str "signature", str "signing_key_id", str "algorithm"] rfl
    (by decide) (by decide)).flatDict fun m hm => ?_
  simp only [bundleDict, List.mem_cons, List.not_mem_nil, or_false] at hm
  rcases hm with rfl | rfl | rfl <;> trivial

theorem exists_readSignature {b : SignatureBundle} (hsignature : Encodable b.signature)
    (hkey : Encodable b.signingKeyId) (halgorithm : Encodable b.algorithm) :
    ∃ obj : Members P.Float, reread P (.dict (bundleDict b)) = some (.dict obj) ∧
      readSignature obj = b := by
  obtain ⟨obj, hobj, hget⟩ := exists_reread_flat P (flatDict_bundleDict (P := P) b)
  refine ⟨obj, hobj, ?_⟩
  have htext : ∀ key s, get (bundleDict b : Members P.Float) key = some (.str s) → Encodable s →
      textAt obj key = s := by
    intro key s hs hencodable
    refine textAt_of_get ?_
    rw [hget, hs, Option.map_some, Value.mapStr, readAscii_eq_self hencodable]
  unfold readSignature
  rw [htext _ b.signature rfl hsignature, htext _ b.signingKeyId rfl hkey,
    htext _ b.algorithm rfl halgorithm]

/-! ### The canonical text -/

theorem canonicalRecordPayload_read {e e' : LedgerEntry P} (hnames : e.NamesInOrder)
    (hserialized : e'.serialized = e.serialized) {prevHash payloadHash : Str}
    (hprev : ∀ c ∈ prevHash, c < 128) (hpayload : ∀ c ∈ payloadHash, c < 128)
    (k : LedgerKeyMetadata) :
    canonicalRecordPayload e' prevHash payloadHash k.read =
      canonicalRecordPayload e prevHash payloadHash k := by
  have hreloaded : e'.reloaded = e.reloaded := by
    unfold LedgerEntry.reloaded
    rw [hserialized]
  obtain ⟨w, hw⟩ := exists_sortKeys P e.plain
  have hread := reread_of_inOrder P hw e.plain e.wf hnames.inOrder
  rw [e.reread_items] at hread
  have hentry : e.reloaded = w.mapStr readAscii := Option.some.inj hread
  have hplain : e.reloaded.Plain := by
    rw [hentry]
    exact ((plain_sortKeys_iff P hw).mpr e.plain).mapStr readAscii
  have hstays : e.reloaded.mapStr readAscii = e.reloaded := by
    rw [hentry]
    exact w.mapStr_readAscii
  let items : Members P.Float := [(.str (str "entry"), e.reloaded),
    (.str (str "prev_hash"), .str prevHash), (.str (str "canonical_payload_hash"), .str payloadHash),
    (.str (str "key_metadata"), .dict k.toDict)]
  have hnamed : NamedItems items :=
    .of_names [str "entry", str "prev_hash", str "canonical_payload_hash", str "key_metadata"] rfl
      (by decide) (by decide)
  have hitems : ∀ m ∈ items, m.2.Plain ∧ m.2.InOrder := by
    intro m hm
    simp only [items, List.mem_cons, List.not_mem_nil, or_false] at hm
    rcases hm with rfl | rfl | rfl | rfl
    · exact ⟨hplain, hplain.inOrder hstays⟩
    · exact ⟨trivial, trivial⟩
    · exact ⟨trivial, trivial⟩
    · exact ⟨k.flatDict.isJson.1, k.flatDict.inOrder⟩
  have hplainItems : (Value.dict items).Plain := by
    rw [Value.Plain, plainMembers_iff]
    exact fun m hm => ⟨hnamed.isString hm, (hitems m hm).1⟩
  have hmap := dumpsSortedAscii_mapStr P .compact hplainItems
    (inOrder_dict.mpr ⟨hnamed.keysInOrder, fun m hm => (hitems m hm).2⟩)
  have hkeys : mapStrMembers readAscii (k.toDict : Members P.Float) = k.read.toDict := by
    rw [(k.flatDict (P := P)).named.mapStr_eq, k.readItems_toDict]
  have hread : (Value.dict items).mapStr readAscii = .dict
      [(.str (str "entry"), e.reloaded), (.str (str "prev_hash"), .str prevHash),
        (.str (str "canonical_payload_hash"), .str payloadHash),
        (.str (str "key_metadata"), .dict k.read.toDict)] := by
    rw [Value.mapStr, hnamed.mapStr_eq]
    simp only [items, readItems, List.map_cons, List.map_nil, hstays, hkeys, Value.mapStr,
      readAscii_of_ascii hprev, readAscii_of_ascii hpayload]
  unfold canonicalRecordPayload compactText
  rw [hreloaded, ← hread, hmap]

/-! ### A row -/

/-- The signature that `append` makes of an entry after a row. -/
def MutationLedger.bundle (L : MutationLedger P) (prevHash : Str) (e : LedgerEntry P) :
    SignatureBundle :=
  L.signer (canonicalRecordPayload e prevHash (canonicalPayloadHash e) L.keyMetadata)

/-- What an entry has to be for its row to be accepted: every metric is a `float`, the names are
read back in the same order, and the key and the algorithm it is signed with are those of the key
metadata. -/
structure Condition (L : MutationLedger P) (prevHash : Str) (e : LedgerEntry P) : Prop where
  floats : e.FloatMetrics
  names : e.NamesInOrder
  trusted : (L.bundle prevHash e).signingKeyId ∈ L.keyMetadata.trustedKeyIds.map readAscii
  allowed : (L.bundle prevHash e).algorithm ∈ L.keyMetadata.allowedAlgorithms.map readAscii

theorem namedItems_rowOf (e : LedgerEntry P) (prevHash : Str) (k : LedgerKeyMetadata)
    (b : SignatureBundle) (hash : Str) : NamedItems (rowOf e prevHash k b hash) :=
  .of_names [str "entry", str "prev_hash", str "canonical_payload_hash", str "signature_bundle",
    str "signing_key_id", str "signature_algorithm", str "key_metadata", str "hash"] rfl (by decide)
    (by decide)

theorem checkRow_rowOf {L : MutationLedger P} {prevHash hash : Str} {e : LedgerEntry P}
    (hprev : ∀ c ∈ prevHash, c < 128) (h : Condition L prevHash e)
    (hhash : recordHash P (canonicalRecordPayload e prevHash (canonicalPayloadHash e) L.keyMetadata)
      (L.bundle prevHash e) = .ok hash)
    {row : Members P.Float}
    (hrow : ∀ k, get row k =
      (get (rowOf e prevHash L.keyMetadata (L.bundle prevHash e) hash) k).bind (reread P))
    (index : Nat) : checkRow L index prevHash row = .ok hash := by
  obtain ⟨hascii, -, hsignature, hkey, halgorithm⟩ := recordHash_eq_ok hhash
  obtain ⟨entryObj, entry, hentryObj, hentry, hserialized⟩ :=
    LedgerEntry.exists_readEntry L.numbers h.floats h.names
  obtain ⟨signatureObj, hsignatureObj, hreadSignature⟩ :=
    exists_readSignature (P := P) hsignature hkey halgorithm
  obtain ⟨keyMetaObj, hkeyMetaObj, hreadKey⟩ :=
    L.keyMetadata.exists_readKeyMetadata (P := P)
  have hpayload : canonicalPayloadHash entry = canonicalPayloadHash e := by
    unfold canonicalPayloadHash
    rw [hserialized]
  have hcanonical := canonicalRecordPayload_read h.names hserialized hprev
    (ascii_canonicalPayloadHash e) L.keyMetadata
  have hreread : reread P e.reloaded = some e.reloaded :=
    reread_reread P e.reread_items e.plain e.wf h.names.inOrder
  -- what is read of each part of the row
  have hentryAt : objectAt index row (str "entry") = .ok entryObj :=
    objectAt_of_get ((hrow (str "entry")).trans (hreread.trans (congrArg some hentryObj))) index
  have hsignatureAt : objectAt index row (str "signature_bundle") = .ok signatureObj :=
    objectAt_of_get ((hrow (str "signature_bundle")).trans hsignatureObj) index
  have hkeyAt : objectAt index row (str "key_metadata") = .ok keyMetaObj :=
    objectAt_of_get ((hrow (str "key_metadata")).trans hkeyMetaObj) index
  have htext : ∀ key s, get (rowOf e prevHash L.keyMetadata (L.bundle prevHash e) hash) key =
      some (.str s) → Encodable s → textAt row key = s := by
    intro key s hs hencodable
    refine textAt_of_get ?_
    rw [hrow, hs, Option.bind_some]
    show some (Value.str (readAscii s)) = _
    rw [readAscii_eq_self hencodable]
  have hprevAt := htext (str "prev_hash") prevHash rfl (encodable_of_ascii hprev)
  have hpayloadAt := htext (str "canonical_payload_hash") (canonicalPayloadHash e) rfl
    (encodable_of_ascii (ascii_canonicalPayloadHash e))
  have hkeyIdAt := htext (str "signing_key_id") (L.bundle prevHash e).signingKeyId rfl hkey
  have halgorithmAt := htext (str "signature_algorithm") (L.bundle prevHash e).algorithm rfl halgorithm
  have hhashAt := htext (str "hash") hash rfl (encodable_of_ascii hascii)
  have hsame : ∀ s : Str, unsaidOrSame s s = true := fun s => by simp [unsaidOrSame]
  unfold checkRow
  rw [hprevAt, hpayloadAt, hkeyIdAt, halgorithmAt, hhashAt]
  refine bind_eq_ok.mpr ⟨entryObj, hentryAt, ?_⟩
  refine bind_eq_ok.mpr ⟨entry, hentry, ?_⟩
  refine bind_eq_ok.mpr ⟨(), require_of_true (decide_eq_true rfl) _ _, ?_⟩
  refine bind_eq_ok.mpr ⟨(), require_of_true (decide_eq_true hpayload.symm) _ _, ?_⟩
  refine bind_eq_ok.mpr ⟨signatureObj, hsignatureAt, ?_⟩
  dsimp only
  rw [hreadSignature]
  refine bind_eq_ok.mpr ⟨(), require_of_true (hsame _) _ _, ?_⟩
  refine bind_eq_ok.mpr ⟨(), require_of_true (hsame _) _ _, ?_⟩
  refine bind_eq_ok.mpr ⟨keyMetaObj, hkeyAt, ?_⟩
  refine bind_eq_ok.mpr ⟨L.keyMetadata.read, hreadKey, ?_⟩
  refine bind_eq_ok.mpr ⟨(), require_of_true (decide_eq_true h.trusted) _ _, ?_⟩
  refine bind_eq_ok.mpr ⟨(), require_of_true (decide_eq_true h.allowed) _ _, ?_⟩
  rw [hcanonical]
  refine bind_eq_ok.mpr ⟨(), require_of_true (L.verifies _) _ _, ?_⟩
  refine bind_eq_ok.mpr ⟨hash, hhash, ?_⟩
  exact bind_eq_ok.mpr ⟨(), require_of_true (decide_eq_true rfl) _ _, rfl⟩

theorem checkRow_eq_ok {L : MutationLedger P} {index : Nat} {expectedPrev hash : Str}
    {row : Members P.Float} (h : checkRow L index expectedPrev row = .ok hash) :
    textAt row (str "hash") = hash ∧ hash ≠ [] ∧ ∀ c ∈ hash, c < 128 := by
  obtain ⟨_, -, h⟩ := bind_eq_ok.mp h
  obtain ⟨_, -, h⟩ := bind_eq_ok.mp h
  obtain ⟨_, -, h⟩ := bind_eq_ok.mp h
  obtain ⟨_, -, h⟩ := bind_eq_ok.mp h
  obtain ⟨_, -, h⟩ := bind_eq_ok.mp h
  obtain ⟨_, -, h⟩ := bind_eq_ok.mp h
  obtain ⟨_, -, h⟩ := bind_eq_ok.mp h
  obtain ⟨_, -, h⟩ := bind_eq_ok.mp h
  obtain ⟨_, -, h⟩ := bind_eq_ok.mp h
  obtain ⟨_, -, h⟩ := bind_eq_ok.mp h
  obtain ⟨_, -, h⟩ := bind_eq_ok.mp h
  obtain ⟨_, -, h⟩ := bind_eq_ok.mp h
  obtain ⟨expectedHash, hexpected, h⟩ := bind_eq_ok.mp h
  obtain ⟨_, hsame, h⟩ := bind_eq_ok.mp h
  have heq : textAt row (str "hash") = expectedHash := by
    unfold require at hsame
    split_ifs at hsame with hb
    exact of_decide_eq_true hb
  obtain rfl := Except.ok.inj h
  obtain ⟨hascii, hne, -⟩ := recordHash_eq_ok hexpected
  rw [← heq] at hascii hne
  exact ⟨rfl, hne, hascii⟩

/-! ### The chain -/

section chain

variable {L : MutationLedger P}

theorem checkRows_concat {index : Nat} {prev hash hash' : Str} {rows : List P.Obj}
    {row : Members P.Float} (hrows : checkRows L index prev rows = .ok hash)
    (hrow : ∀ i, checkRow L i hash row = .ok hash') :
    checkRows L index prev (rows ++ [.dict row]) = .ok hash' := by
  induction rows generalizing index prev with
  | nil =>
    obtain rfl := Except.ok.inj hrows
    exact bind_eq_ok.mpr ⟨hash', hrow index, rfl⟩
  | cons v rows ih =>
    cases v with
    | dict kvs =>
      obtain ⟨h, hfirst, hrest⟩ := bind_eq_ok.mp hrows
      exact bind_eq_ok.mpr ⟨h, hfirst, ih hrest⟩
    | none | bool | int | float | str | list | tuple => cases hrows

theorem checkRows_last {index : Nat} {prev hash : Str} {rows : List P.Obj} {v : P.Obj}
    (h : checkRows L index prev (rows ++ [v]) = .ok hash) :
    ∃ row, v = .dict row ∧ textAt row (str "hash") = hash ∧ hash ≠ [] := by
  induction rows generalizing index prev with
  | nil =>
    cases v with
    | dict row =>
      obtain ⟨hash', hrow, hrest⟩ := bind_eq_ok.mp h
      obtain rfl := Except.ok.inj hrest
      obtain ⟨htext, hne, -⟩ := checkRow_eq_ok hrow
      exact ⟨row, rfl, htext, hne⟩
    | none | bool | int | float | str | list | tuple => cases h
  | cons w rows ih =>
    cases w with
    | dict kvs =>
      obtain ⟨hash', -, hrest⟩ := bind_eq_ok.mp h
      exact ih hrest
    | none | bool | int | float | str | list | tuple => cases h

theorem ascii_of_checkRows {index : Nat} {prev hash : Str} {rows : List P.Obj}
    (h : checkRows L index prev rows = .ok hash) (hprev : ∀ c ∈ prev, c < 128) :
    ∀ c ∈ hash, c < 128 := by
  induction rows generalizing index prev with
  | nil =>
    obtain rfl := Except.ok.inj h
    exact hprev
  | cons v rows ih =>
    cases v with
    | dict kvs =>
      obtain ⟨hash', hrow, hrest⟩ := bind_eq_ok.mp h
      exact ih hrest (checkRow_eq_ok hrow).2.2
    | none | bool | int | float | str | list | tuple => cases h

theorem mapM_concat {α β : Type} {f : α → Option β} {xs : List α} {x : α} {ys : List β} :
    (xs ++ [x]).mapM f = some ys ↔
      ∃ zs y, xs.mapM f = some zs ∧ f x = some y ∧ ys = zs ++ [y] := by
  rw [List.mapM_append]
  simp only [List.mapM_cons, List.mapM_nil, Option.bind_eq_bind, Option.bind_eq_some_iff,
    Option.pure_def, Option.some.injEq]
  constructor
  · rintro ⟨zs, hzs, _, ⟨y, hy, _, rfl, rfl⟩, rfl⟩
    exact ⟨zs, y, hzs, hy, rfl⟩
  · rintro ⟨zs, y, hzs, hy, rfl⟩
    exact ⟨zs, hzs, [y], ⟨y, hy, [], rfl, rfl⟩, rfl⟩

theorem validateExistingChain_eq_ok {file : Bytes} {text hash : Str}
    (hfile : readText file = .ok text) :
    L.validateExistingChain file = .ok hash ↔
      ∃ rows, (filledLines text).mapM (loads P) = some rows ∧
        checkRows L 1 genesisPrevHash rows = .ok hash := by
  have hrows : ∀ rows, raising (readRows P id file) = .ok rows ↔
      (filledLines text).mapM (loads P) = some rows := by
    intro rows
    unfold raising readRows
    rw [mapError_eq_ok, hfile]
    dsimp only [bind, Except.bind, id]
    cases (filledLines text).mapM (loads P) with
    | none => exact iff_of_false (fun h => by cases h) (fun h => by cases h)
    | some rows' => rw [Except.ok.injEq, Option.some.injEq]
  unfold MutationLedger.validateExistingChain
  rw [bind_eq_ok]
  exact exists_congr fun rows => and_congr_left' (hrows rows)

theorem lastHash_of_validate {file : Bytes} {text hash : Str} (hfile : readText file = .ok text)
    (h : L.validateExistingChain file = .ok hash) : lastHash P file = .ok hash := by
  obtain ⟨rows, hrows, hcheck⟩ := (validateExistingChain_eq_ok hfile).mp h
  have hread : raising (readText file) = .ok text := by
    rw [hfile]
    rfl
  unfold lastHash
  refine bind_eq_ok.mpr ⟨text, hread, ?_⟩
  rcases List.eq_nil_or_concat (filledLines text) with hnil | ⟨lines, line, hlines⟩
  · rw [hnil] at hrows ⊢
    obtain rfl := Option.some.inj hrows
    exact hcheck
  · rw [List.concat_eq_append] at hlines
    rw [hlines] at hrows ⊢
    obtain ⟨rows', v, -, hv, rfl⟩ := mapM_concat.mp hrows
    obtain ⟨row, rfl, htext, hne⟩ := checkRows_last hcheck
    rw [List.getLast?_append, List.getLast?_singleton, Option.some_or]
    dsimp only
    rw [hv]
    dsimp only
    unfold textAt at htext
    cases hget : get row (str "hash") with
    | none =>
      rw [hget] at htext
      exact absurd htext.symm hne
    | some v =>
      rw [hget] at htext
      exact congrArg Except.ok htext

/-! ### Appending -/

def CompleteFile (file : Bytes) : Prop :=
  ∃ text, readText file = .ok text ∧ CompleteLines text

/-- `_validate_existing_chain` does not raise. -/
def MutationLedger.Accepts (L : MutationLedger P) (file : Bytes) : Prop :=
  ∃ hash, L.validateExistingChain file = .ok hash

theorem accepts_append {file file' : Bytes} {e : LedgerEntry P} {prevHash hash : Str}
    (hcomplete : CompleteFile file) (hvalid : L.validateExistingChain file = .ok prevHash)
    (hcondition : Condition L prevHash e) (happend : L.append file e = .ok (hash, file')) :
    CompleteFile file' ∧ L.validateExistingChain file' = .ok hash := by
  obtain ⟨text, hfile, htext⟩ := hcomplete
  obtain ⟨rows, hrows, hcheck⟩ := (validateExistingChain_eq_ok hfile).mp hvalid
  obtain ⟨_, -, happend⟩ := bind_eq_ok.mp happend
  obtain ⟨last, hlast, happend⟩ := bind_eq_ok.mp happend
  obtain rfl : prevHash = last :=
    Except.ok.inj ((lastHash_of_validate hfile hvalid).symm.trans hlast)
  obtain ⟨hash', hhash, happend⟩ := bind_eq_ok.mp happend
  obtain ⟨file'', hwrite, happend⟩ := bind_eq_ok.mp happend
  obtain ⟨rfl, rfl⟩ := Prod.mk.inj (Except.ok.inj happend)
  obtain ⟨l, b, hl, hb, rfl⟩ := appendSorted_eq_ok (mapError_eq_ok.mp hwrite)
  obtain ⟨text', hfile', htext', hlines⟩ :=
    readText_append_row hfile htext (exists_dumpsAscii_of_sorted P hl) hb
  obtain ⟨row, hload, hget⟩ := loads_of_dumpsSortedAscii P
    (namedItems_rowOf e prevHash L.keyMetadata (L.bundle prevHash e) hash') hl
  have hrow : ∀ i, checkRow L i prevHash row = .ok hash' := fun i =>
    checkRow_rowOf (ascii_of_checkRows hcheck ascii_genesisPrevHash) hcondition hhash hget i
  refine ⟨⟨text', hfile', htext'⟩, (validateExistingChain_eq_ok hfile').mpr
    ⟨rows ++ [.dict row], ?_, checkRows_concat hcheck hrow⟩⟩
  rw [hlines]
  exact mapM_concat.mpr ⟨rows, .dict row, hrows, hload, rfl⟩

end chain

/-! ### Runs -/

/-- Every entry that is appended meets the condition, after the last row of the file. -/
def Meets (L : MutationLedger P) : Bytes → List (LedgerEntry P) → Prop :=
  Run.Meets L.step fun file e => (L.append file e).isOk = true →
    ∀ prevHash, lastHash P file = .ok prevHash → Condition L prevHash e

/-- Where the entries that are appended meet the condition, the check accepts the ledger after every
append. -/
theorem accepts_of_condition (L : MutationLedger P) {file : Bytes} (hcomplete : CompleteFile file)
    (haccepts : L.Accepts file) {entries : List (LedgerEntry P)} (h : Meets L file entries) :
    Run.Always L.step L.Accepts file entries := by
  refine (Run.always_of_step (I := fun file => CompleteFile file ∧ L.Accepts file)
    (fun file e hfile hok => ?_) ⟨hcomplete, haccepts⟩ h).imp fun _ h => h.2
  obtain ⟨⟨text, hfile, htext⟩, prevHash, hvalid⟩ := hfile
  unfold MutationLedger.step
  cases happend : L.append file e with
  | error x => exact ⟨⟨text, hfile, htext⟩, prevHash, hvalid⟩
  | ok r =>
    obtain ⟨hash, file'⟩ := r
    have hcondition := hok (by rw [happend]; rfl) prevHash (lastHash_of_validate hfile hvalid)
    obtain ⟨hcomplete', hvalid'⟩ := accepts_append ⟨text, hfile, htext⟩ hvalid hcondition happend
    exact ⟨hcomplete', hash, hvalid'⟩

/-! ### A metric that is an integer -/

/-- A production ledger of the reference runtime, with one key. -/
def referenceLedger : MutationLedger reference where
  testMode := false
  signer _ := ⟨str "sig:1", str "key-1", str "hmac-sha256"⟩
  verifier _ b := b.signature = str "sig:1"
  verifies _ := by decide
  keyMetadata := ⟨str "key-1", [str "key-1"], [str "hmac-sha256"]⟩
  numbers := ⟨referenceLetters, fun _ => .error .overflowError, fun _ => none⟩

def scored (score : Metric reference) : LedgerEntry reference where
  variantId := str "v1"
  seed := 7
  metrics := [(str "score", score)]
  promoted := true
  distinct := List.nodup_singleton _

/-- A score that is a `float` is accepted. -/
theorem accepts_of_condition_float :
    Run.Always referenceLedger.step referenceLedger.Accepts []
      [scored (.inr (LiteralFloat.ofText (.lit ⟨false, str "0", str "5", none⟩)))] := by
  refine accepts_of_condition referenceLedger ⟨[], rfl, .inl rfl⟩ ⟨genesisPrevHash, rfl⟩
    ⟨fun _ prevHash _ => ⟨?_, ?_, ?_, ?_⟩, trivial⟩
  · exact List.forall_mem_singleton.mpr ⟨_, rfl⟩
  · exact List.forall_mem_singleton.mpr (List.forall_mem_singleton.mpr (by decide))
  · show str "key-1" ∈ [str "key-1"].map readAscii
    decide
  · show str "hmac-sha256" ∈ [str "hmac-sha256"].map readAscii
    decide

/-- After a score that is an `int` the check refuses the ledger. -/
theorem not_accepts_integer :
    ¬ Run.Always referenceLedger.step referenceLedger.Accepts [] [scored (.inl 1)] := by
  rintro ⟨-, hash, haccepts⟩
  have hrefused : (referenceLedger.validateExistingChain
      (referenceLedger.step [] (scored (.inl 1)))).isOk = false := by
    decide +kernel
  rw [haccepts] at hrefused
  exact Bool.noConfusion hrefused

end Adaad.Governance.Ledger
