import Adaad.Chain
import Adaad.Memory.Equiv.JsonState
import Adaad.Memory.SoulboundLedger

/-!
# The file of a soulbound ledger

The file has the entries that have been accepted, whoever appended them (`Holds`), and is verified by
what is read of them (`verifyChain_eq`).
-/

namespace Adaad.Memory

open Py

variable {P : Platform}

/-! ### Entries in the store -/

/-- The payload of an entry in the store, its keys sorted, where its context payload is read as `context`. -/
def storedPayload (e : LedgerEntry) (context : P.Obj) : Members P.Float :=
  [(.str (str "chain_hash"), .str e.chainHash),
   (.str (str "context_digest"), .str e.contextDigest),
   (.str (str "context_payload"), context),
   (.str (str "context_type"), .str e.contextType),
   (.str (str "entry_id"), .str e.entryId),
   (.str (str "epoch_id"), .str e.epochId),
   (.str (str "hmac_signature"), .str e.hmacSignature),
   (.str (str "schema_version"), .str e.schemaVersion)]

theorem readEntry_storedPayload (e : LedgerEntry) (context : P.Obj) :
    readEntry (storedPayload e context) = e := rfl

theorem sortKeys_storedPayload (e : LedgerEntry) {context w : P.Obj} (h : sortKeys P context = some w) :
    sortKeys P (.dict (storedPayload e context)) = some (.dict (storedPayload e w)) := by
  refine (sortKeys_dict_eq_some P).mpr
    ⟨storedPayload e w, (sortKeysMembers_eq_some P).mpr ?_, rfl, rfl⟩
  exact .cons ⟨rfl, rfl⟩ (.cons ⟨rfl, rfl⟩ (.cons ⟨rfl, h⟩ (.cons ⟨rfl, rfl⟩ (.cons ⟨rfl, rfl⟩
    (.cons ⟨rfl, rfl⟩ (.cons ⟨rfl, rfl⟩ (.cons ⟨rfl, rfl⟩ .nil)))))))

theorem sortKeys_appended (e : LedgerEntry) {context w : P.Obj} (h : sortKeys P context = some w) :
    sortKeys P (.dict (e.asDict P ++ [(.str (str "context_payload"), context)])) =
      some (.dict (storedPayload e w)) := by
  refine (sortKeys_dict_eq_some P).mpr ⟨e.asDict P ++ [(.str (str "context_payload"), w)],
    (sortKeysMembers_eq_some P).mpr ?_, rfl, rfl⟩
  exact .cons ⟨rfl, rfl⟩ (.cons ⟨rfl, rfl⟩ (.cons ⟨rfl, rfl⟩ (.cons ⟨rfl, rfl⟩ (.cons ⟨rfl, rfl⟩
    (.cons ⟨rfl, rfl⟩ (.cons ⟨rfl, rfl⟩ (.cons ⟨rfl, h⟩ .nil)))))))

theorem image_storedPayload (e : LedgerEntry) (context : P.Obj) :
    image P (.dict (storedPayload e context)) = .dict (storedPayload e (image P context)) := by
  rw [image_dict_of_names [str "chain_hash", str "context_digest", str "context_payload",
    str "context_type", str "entry_id", str "epoch_id", str "hmac_signature", str "schema_version"] rfl
    (by decide)]
  rfl

namespace VersionedMemoryEntry

def withPayload (e : VersionedMemoryEntry P) (payload : Members P.Float) : VersionedMemoryEntry P :=
  { e with payload := payload }

variable {e : VersionedMemoryEntry P} {payload : Members P.Float}

theorem sortKeys_asDict (h : sortKeys P (.dict e.payload) = some (.dict payload)) :
    sortKeys P e.asDict = some (.dict (e.withPayload payload).stored) := by
  have hsorted : e.sorted = e.withPayload payload := by
    unfold sorted
    rw [h]
    rfl
  rw [← hsorted]
  exact sortKeys_asDict_entry h

theorem sortKeys_stored (h : sortKeys P (.dict e.payload) = some (.dict payload)) :
    sortKeys P (.dict e.stored) = some (.dict (e.withPayload payload).stored) := by
  have hparent : sortKeys P (textOrNone e.parentVersionId : P.Obj) =
      some (textOrNone e.parentVersionId) := by
    cases e.parentVersionId <;> rfl
  refine (sortKeys_dict_eq_some P).mpr
    ⟨(e.withPayload payload).stored, (sortKeysMembers_eq_some P).mpr ?_, rfl, rfl⟩
  exact .cons ⟨rfl, rfl⟩ (.cons ⟨rfl, rfl⟩ (.cons ⟨rfl, hparent⟩ (.cons ⟨rfl, h⟩
    (.cons ⟨rfl, rfl⟩ .nil))))

theorem image_stored (h : image P (.dict e.payload) = .dict payload) :
    image P (.dict e.stored) = .dict (e.withPayload payload).stored := by
  have hparent : image P (textOrNone e.parentVersionId : P.Obj) = textOrNone e.parentVersionId := by
    cases e.parentVersionId <;> rfl
  rw [image_dict_of_names [str "confidence", str "created_at", str "parent_version_id", str "payload",
    str "version_id"] rfl (by decide)]
  show Value.dict [_, _, (_, image P (textOrNone e.parentVersionId)), (_, image P (.dict e.payload)), _] = _
  rw [hparent, h]
  rfl

end VersionedMemoryEntry

/-! ### Files -/

/-- The entry of the store is this entry of the ledger, with some context payload. -/
def Carries (e : VersionedMemoryEntry P) (a : LedgerEntry) : Prop :=
  ∃ context : P.Obj, context.Plain ∧ e.payload = storedPayload a context

def Holds (file : Option Bytes) (accepted : List LedgerEntry) : Prop :=
  ∃ (head : Option Str) (es : List (VersionedMemoryEntry P)),
    readJsonState P file = .ok (.of (str "1") head (es.map fun e => .dict e.stored)) ∧
      List.Forall₂ Carries es accepted

theorem holds_nil : Holds (P := P) none [] :=
  ⟨none, [], rfl, .nil⟩

theorem Carries.rewritten {e : VersionedMemoryEntry P} {a : LedgerEntry} (h : Carries e a) :
    ∃ (y : P.Obj) (e' : VersionedMemoryEntry P), sortKeys P (.dict e.stored) = some y ∧
      image P y = .dict e'.stored ∧ Carries e' a := by
  obtain ⟨context, hplain, hpayload⟩ := h
  obtain ⟨w, hw⟩ := exists_sortKeys P hplain
  refine ⟨_, e.withPayload (storedPayload a (image P w)),
    VersionedMemoryEntry.sortKeys_stored (hpayload ▸ sortKeys_storedPayload a hw), ?_,
    image P w, (isJson_image P w).1, rfl⟩
  exact VersionedMemoryEntry.image_stored (image_storedPayload a w)

theorem carries_appended (e : VersionedMemoryEntry P) {a : LedgerEntry} {context w : P.Obj}
    (hpayload : e.payload = a.asDict P ++ [(.str (str "context_payload"), context)])
    (hsort : sortKeys P context = some w) :
    ∃ (y : P.Obj) (e' : VersionedMemoryEntry P), sortKeys P e.asDict = some y ∧
      image P y = .dict e'.stored ∧ Carries e' a := by
  refine ⟨_, e.withPayload (storedPayload a (image P w)),
    VersionedMemoryEntry.sortKeys_asDict (hpayload ▸ sortKeys_appended a hsort), ?_,
    image P w, (isJson_image P w).1, rfl⟩
  exact VersionedMemoryEntry.image_stored (image_storedPayload a w)

theorem exists_rewritten {es : List (VersionedMemoryEntry P)} {accepted : List LedgerEntry}
    (h : List.Forall₂ Carries es accepted) :
    ∃ (ys : List P.Obj) (es' : List (VersionedMemoryEntry P)),
      List.Forall₂ (fun x y => sortKeys P x = some y) (es.map fun e => .dict e.stored) ys ∧
        ys.map (image P) = (es'.map fun e => .dict e.stored) ∧ List.Forall₂ Carries es' accepted := by
  induction h with
  | nil => exact ⟨[], [], .nil, rfl, .nil⟩
  | cons he _ ih =>
    obtain ⟨y, e', hsort, himage, he'⟩ := he.rewritten
    obtain ⟨ys, es', hys, hes', hcarries⟩ := ih
    refine ⟨y :: ys, e' :: es', .cons hsort hys, ?_, .cons he' hcarries⟩
    rw [List.map_cons, List.map_cons, himage, hes']

theorem Holds.append {file : Option Bytes} {accepted : List LedgerEntry} (h : Holds (P := P) file accepted)
    {a : LedgerEntry} {context w : P.Obj} (hsort : sortKeys P context = some w) {confidence : P.Float}
    (hvalid : invalidConfidence confidence = false) {now : Str} {v : VersionedMemoryEntry P}
    {file' : Bytes}
    (happend : jsonAppend file (a.asDict P ++ [(.str (str "context_payload"), context)]) confidence now =
      .ok (v, file')) : Holds (P := P) (some file') (accepted ++ [a]) := by
  obtain ⟨head, es, hread, hcarries⟩ := h
  rw [jsonAppend_eq hread _ hvalid] at happend
  obtain ⟨written, hwrite, heq⟩ := map_eq_ok.mp happend
  obtain ⟨-, rfl⟩ := Prod.mk.inj heq
  obtain ⟨ys, es', hys, hes', hcarries'⟩ := exists_rewritten hcarries
  obtain ⟨y, e', hsorted, himage, he'⟩ := carries_appended
    (⟨nextVersionId (es.map fun e => (Value.dict e.stored : P.Obj)).length, head, now,
      a.asDict P ++ [(.str (str "context_payload"), context)], confidence⟩ : VersionedMemoryEntry P) rfl
    hsort
  have hall := List.rel_append hys (.cons hsorted .nil)
  by_cases hencodable : Encodable (JsonState.of (str "1")
      (some (nextVersionId (es.map fun e => (Value.dict e.stored : P.Obj)).length))
      (ys ++ [y])).sortedDict.chars
  · obtain ⟨file, hfile, hread'⟩ := exists_write (str "1") _ hall hencodable
    rw [hfile] at hwrite
    obtain rfl := Except.ok.inj hwrite
    have hsame : (ys ++ [y]).map (image P) =
        ((es' ++ [e']).map fun e => (Value.dict e.stored : P.Obj)) := by
      rw [List.map_append, List.map_append, hes', List.map_singleton, himage]
      rfl
    rw [hsame] at hread'
    exact ⟨_, es' ++ [e'], hread', List.rel_append hcarries' (.cons he' .nil)⟩
  · rw [write_eq_error (str "1") _ hall hencodable] at hwrite
    cases hwrite

/-! ### What is read -/

/-- The entries of a file as `verify_chain` reads them, where their payloads are mappings. -/
def readEntries (file : Option Bytes) : Option (List LedgerEntry) :=
  (allEntries (P := P) file).mapM fun raw => raw.members?.map readEntry

theorem mapM_of_forall₂ {α β γ : Type} {R : α → γ → Prop} {f : α → Option β} {g : γ → β} {xs : List α}
    {ys : List γ} (h : List.Forall₂ R xs ys) (hf : ∀ x y, R x y → f x = some (g y)) :
    xs.mapM f = some (ys.map g) := by
  induction h with
  | nil => rfl
  | cons hxy _ ih =>
    rw [List.mapM_cons, hf _ _ hxy, ih]
    rfl

theorem Holds.allEntries_eq {file : Option Bytes} {accepted : List LedgerEntry}
    (h : Holds (P := P) file accepted) :
    ∃ es, allEntries file = es.map (fun e : VersionedMemoryEntry P => .dict e.payload) ∧
      List.Forall₂ Carries es accepted := by
  obtain ⟨head, es, hread, hcarries⟩ := h
  refine ⟨es, ?_, hcarries⟩
  have hpayloads : (es.map fun e => (Value.dict e.stored : P.Obj)).mapM payloadOf =
      some (es.map fun e => .dict e.payload) := by
    rw [List.mapM_map]
    exact mapM_of_forall₂ (List.forall₂_same.mpr fun _ _ => rfl) fun x y hxy => hxy ▸ rfl
  unfold allEntries
  rw [hread]
  show ((es.map fun e => (Value.dict e.stored : P.Obj)).mapM payloadOf).getD [] = _
  rw [hpayloads]
  rfl

theorem Holds.readEntries_eq {file : Option Bytes} {accepted : List LedgerEntry}
    (h : Holds (P := P) file accepted) : readEntries (P := P) file = some accepted := by
  obtain ⟨es, hes, hcarries⟩ := h.allEntries_eq
  unfold readEntries
  rw [hes, List.mapM_map]
  refine (mapM_of_forall₂ (g := id) hcarries fun e a he => ?_).trans (congrArg some (List.map_id _))
  obtain ⟨context, -, hpayload⟩ := he
  show some (readEntry e.payload) = some a
  rw [hpayload]
  rfl

theorem getLast?_of_forall₂ {α β : Type} {R : α → β → Prop} {xs : List α} {ys : List β}
    (h : List.Forall₂ R xs ys) : (xs.getLast? = none ∧ ys = []) ∨
      ∃ x y, xs.getLast? = some x ∧ ys.getLast? = some y ∧ R x y := by
  induction h with
  | nil => exact .inl ⟨rfl, rfl⟩
  | cons hxy _ ih =>
    right
    rw [List.getLast?_cons, List.getLast?_cons]
    rcases ih with ⟨hnone, rfl⟩ | ⟨x, y, hx, hy, hR⟩
    · rw [hnone]
      exact ⟨_, _, rfl, rfl, hxy⟩
    · rw [hx, hy]
      exact ⟨_, _, rfl, rfl, hR⟩

theorem Holds.recoverChainTip_eq {file : Option Bytes} {accepted : List LedgerEntry}
    (h : Holds (P := P) file accepted) :
    recoverChainTip P file = .ok (Chain.lastHash LedgerEntry.chainHash (genesisChainHash P) accepted) := by
  obtain ⟨es, hes, hcarries⟩ := h.allEntries_eq
  unfold recoverChainTip
  rw [hes]
  rw [List.getLast?_map]
  rcases getLast?_of_forall₂ hcarries with ⟨hnone, hnil⟩ | ⟨e, a, hlast, hlast', context, -, hpayload⟩
  · rw [hnone, hnil]
    rfl
  · rw [hlast, Chain.lastHash_eq, hlast', Option.map_some]
    dsimp only
    rw [hpayload]
    rfl

/-! ### Verification -/

variable (c : LedgerConfig P)

def LinkedTo (prev : Str) (e : LedgerEntry) : Prop :=
  computeChainHash P prev e.contextDigest = .ok e.chainHash

/-- The entry has the signature of its other fields. -/
def Signed (e : LedgerEntry) : Prop :=
  ∃ key data, c.key = some key ∧ e.signableBytes P = .ok data ∧ e.hmacSignature = hmacSha256 P key data

def Follows (prev : Str) (e : LedgerEntry) : Prop :=
  LinkedTo (P := P) prev e ∧ Signed c e

/-- The entries are a chain of signed entries. -/
def Intact (entries : List LedgerEntry) : Prop :=
  Chain.Linked (Follows c) LedgerEntry.chainHash (genesisChainHash P) entries

theorem sigOk_iff {e : LedgerEntry} {data : Bytes} (hdata : e.signableBytes P = .ok data) :
    (verifySignature c data e.hmacSignature).toOption.getD false = true ↔ Signed c e := by
  unfold verifySignature Signed
  cases hkey : c.key with
  | none =>
    refine iff_of_false Bool.false_ne_true ?_
    rintro ⟨key, data, hnone, -⟩
    cases hnone
  | some key =>
    constructor
    · intro h
      exact ⟨key, data, rfl, hdata, (of_decide_eq_true h).symm⟩
    · rintro ⟨key', data', hkey', hdata', hsignature⟩
      obtain rfl := Option.some.inj hkey'
      rw [hdata] at hdata'
      obtain rfl := Except.ok.inj hdata'
      exact decide_eq_true hsignature.symm

theorem verifyEntry_eq_ok {prev : Str} {failures : List Str} {raw : Members P.Float}
    {s : Str × List Str} (h : verifyEntry c (prev, failures) (.dict raw) = .ok s) :
    Follows c prev (readEntry raw) ∧
        s = (if failures = [] then (readEntry raw).chainHash else prev, failures) ∨
      ¬ Follows c prev (readEntry raw) ∧ ∃ failure, s = (prev, failures ++ [failure]) := by
  have hconcat : ∀ failure, failures ++ [failure] ≠ [] := fun failure h =>
    List.cons_ne_nil _ _ (List.append_eq_nil_iff.mp h).2
  unfold verifyEntry at h
  dsimp only at h
  obtain ⟨expected, hexpected, h⟩ := bind_eq_ok.mp h
  have hchain : computeChainHash P prev (readEntry raw).contextDigest = .ok expected :=
    mapError_eq_ok.mp hexpected
  by_cases hlink : (readEntry raw).chainHash ≠ expected
  · right
    rw [if_pos hlink] at h
    obtain ⟨failures', hfailures, h⟩ := bind_eq_ok.mp h
    obtain rfl := Except.ok.inj hfailures
    obtain rfl := Except.ok.inj h
    refine ⟨fun hfollows => hlink ?_, _, by rw [if_neg (hconcat _)]⟩
    exact Except.ok.inj (hfollows.1.symm.trans hchain)
  · rw [if_neg hlink] at h
    obtain ⟨data, hdata, h⟩ := bind_eq_ok.mp h
    have hsig := sigOk_iff c (mapError_eq_ok.mp hdata)
    obtain ⟨failures', hfailures, h⟩ := bind_eq_ok.mp h
    obtain rfl := Except.ok.inj hfailures
    obtain rfl := Except.ok.inj h
    by_cases hok : (verifySignature c data (readEntry raw).hmacSignature).toOption.getD false = true
    · left
      rw [if_pos hok]
      exact ⟨⟨hchain.trans (congrArg Except.ok (not_not.mp hlink).symm), hsig.mp hok⟩, rfl⟩
    · right
      rw [if_neg hok]
      exact ⟨fun hfollows => hok (hsig.mpr hfollows.2), _, by rw [if_neg (hconcat _)]⟩

theorem verifyEntry_of_follows {prev : Str} {raw : Members P.Float}
    (h : Follows c prev (readEntry raw)) :
    verifyEntry c (prev, []) (.dict raw) = .ok ((readEntry raw).chainHash, []) := by
  obtain ⟨hlink, hsigned⟩ := h
  obtain ⟨key, data, hkey, hdata, hsignature⟩ := id hsigned
  unfold verifyEntry
  dsimp only
  rw [show computeChainHash P prev (readEntry raw).contextDigest = .ok (readEntry raw).chainHash from hlink]
  dsimp only [bind, Except.bind, Except.mapError]
  rw [if_neg (not_not_intro rfl), hdata]
  dsimp only
  rw [if_pos ((sigOk_iff c hdata).mpr hsigned)]
  rfl

theorem readEntries_eq_some {file : Option Bytes} {entries : List LedgerEntry}
    (h : readEntries (P := P) file = some entries) :
    ∃ raws : List (Members P.Float), allEntries file = raws.map Value.dict ∧
      entries = raws.map readEntry := by
  unfold readEntries at h
  generalize allEntries (P := P) file = values at h ⊢
  induction values generalizing entries with
  | nil =>
    obtain rfl := Option.some.inj h
    exact ⟨[], rfl, rfl⟩
  | cons v values ih =>
    rw [List.mapM_cons] at h
    obtain ⟨e, he, h⟩ := Option.bind_eq_some_iff.mp h
    obtain ⟨es, hes, h⟩ := Option.bind_eq_some_iff.mp h
    obtain rfl := Option.some.inj h
    obtain ⟨raws, rfl, rfl⟩ := ih hes
    obtain ⟨raw, hraw, rfl⟩ := Option.map_eq_some_iff.mp he
    cases v with
    | dict kvs =>
      obtain rfl := Option.some.inj hraw
      exact ⟨kvs :: raws, rfl, rfl⟩
    | none | bool | int | float | str | list | tuple => cases hraw

theorem foldlM_of_linked {prev : Str} {raws : List (Members P.Float)}
    (h : Chain.Linked (Follows c) LedgerEntry.chainHash prev (raws.map readEntry)) :
    (raws.map Value.dict).foldlM (verifyEntry c) (prev, []) =
      .ok (Chain.lastHash LedgerEntry.chainHash prev (raws.map readEntry), []) := by
  induction raws generalizing prev with
  | nil => rfl
  | cons raw raws ih =>
    rw [List.map_cons, List.foldlM_cons, verifyEntry_of_follows c h.1]
    exact ih h.2

theorem verifyChain_of_intact {file : Option Bytes} {entries : List LedgerEntry}
    (hread : readEntries (P := P) file = some entries) (hintact : Intact c entries) :
    verifyChain c file = .ok (true, []) := by
  obtain ⟨raws, hraws, rfl⟩ := readEntries_eq_some hread
  unfold verifyChain
  rw [hraws, foldlM_of_linked c hintact]
  rfl

end Adaad.Memory
