import Adaad.Innovations.ConstitutionalRollback
import Adaad.Py.Reference
import Adaad.Chain
import Adaad.Run

/-!
# Rollbacks and restarts

A new engine takes every snapshot of the ledger, also those that a rollback has cut.  Where every
rollback is to the head, and the texts of the snapshots are read as they were written, a new engine
is the old one, the ids are distinct and the chain is intact, in every state (`always_faithful`).
-/

namespace Adaad.Innovations.ConstitutionalRollback

open Py

variable {P : Platform}

/-! ### Records -/

/-- The texts of the rules are read as they were written. -/
def Rules.Stay (rules : Rules) : Prop :=
  ∀ m ∈ rules.items, readAscii m.1 = m.1 ∧ readAscii m.2 = m.2

/-- The texts of a snapshot are read as they were written, and it has a digest. -/
structure ConstitutionalSnapshot.Stay (s : ConstitutionalSnapshot) : Prop where
  snapshotId : readAscii s.snapshotId = s.snapshotId
  epochId : readAscii s.epochId = s.epochId
  rules : s.rules.Stay
  amendmentReason : readAscii s.amendmentReason = s.amendmentReason
  author : readAscii s.author = s.author
  timestamp : readAscii s.timestamp = s.timestamp
  prevHash : readAscii s.prevHash = s.prevHash
  diff : ∀ k ∈ s.diff.added ++ (s.diff.removed ++ s.diff.modified), readAscii k = k
  snapshotDigest : readAscii s.snapshotDigest = s.snapshotDigest
  digested : s.snapshotDigest ≠ []

theorem Rules.Stay.toObj {rules : Rules} (h : rules.Stay) : (rules.toObj : P.Obj).Stays := by
  refine Value.stays_dict ?_ ?_ ?_
  · have hkeys : (rules.items.map fun m => ((.str m.1, .str m.2) : Key P.Float × P.Obj)).map
        Prod.fst = (Assoc.keys rules.items).map Key.str := by
      unfold Assoc.keys
      rw [List.map_map, List.map_map]
      rfl
    rw [hkeys]
    exact rules.nodup.map fun _ _ hab => Key.str.inj hab
  · exact List.forall_mem_map.mpr fun m hm => ⟨m.1, rfl, (h m hm).1⟩
  · exact List.forall_mem_map.mpr fun m hm => Value.stays_str (h m hm).2

theorem stays_textList {ss : List Str} (h : ∀ s ∈ ss, readAscii s = s) :
    (textList ss : P.Obj).Stays :=
  Value.stays_list (List.forall_mem_map.mpr fun s hs => Value.stays_str (h s hs))

theorem rulesOf_toObj (rules : Rules) : rulesOf (rules.toObj : P.Obj) = .ok rules := by
  have hitems : (rules.items.map fun m => ((.str m.1, .str m.2) : Key P.Float × P.Obj)).mapM ruleOf =
      .ok rules.items := by
    rw [mapM_eq_ok, List.forall₂_map_left_iff]
    exact List.forall₂_same.mpr fun _ _ => rfl
  unfold rulesOf Rules.toObj
  dsimp only
  rw [hitems]
  exact dif_pos rules.nodup

theorem namesAt_eq_ok {diffData : Members P.Float} {key : Str} {ss : List Str}
    (h : get diffData key = some (textList ss)) : namesAt diffData key = .ok ss := by
  unfold namesAt
  rw [h]
  exact textsOf_map_str ss

namespace ConstitutionalSnapshot

variable {s : ConstitutionalSnapshot}

theorem namedItems_record (s : ConstitutionalSnapshot) : NamedItems (s.record : Members P.Float) :=
  NamedItems.of_names
    [str "action", str "snapshot_id", str "epoch_id", str "rules", str "amendment_reason",
      str "author", str "timestamp", str "prev_hash", str "diff", str "snapshot_digest"] rfl
    (by decide) (by decide)

theorem Stay.diff_toObj (h : s.Stay) : (s.diff.toObj : P.Obj).Stays := by
  obtain ⟨hadded, hrest⟩ := List.forall_mem_append.mp h.diff
  obtain ⟨hremoved, hmodified⟩ := List.forall_mem_append.mp hrest
  refine Value.stays_dict ?_ ?_ ?_
  · have hnames := NamedItems.of_names [str "added", str "removed", str "modified"]
      (rfl : ([(.str (str "added"), textList s.diff.added),
        (.str (str "removed"), textList s.diff.removed),
        (.str (str "modified"), textList s.diff.modified)] : Members P.Float).map Prod.fst = _)
      (by decide) (by decide)
    exact hnames.nodup
  · simp only [List.forall_mem_cons]
    exact ⟨⟨_, rfl, by decide⟩, ⟨_, rfl, by decide⟩, ⟨_, rfl, by decide⟩, List.forall_mem_nil _⟩
  · simp only [List.forall_mem_cons]
    exact ⟨stays_textList hadded, stays_textList hremoved, stays_textList hmodified,
      List.forall_mem_nil _⟩

theorem Stay.readBack_record (h : s.Stay) : readBack P s.record = s.record := by
  refine readBack_eq_self ?_
  simp only [record, payload, List.cons_append, List.nil_append, List.forall_mem_cons]
  exact ⟨Value.stays_str_of_ascii (by decide), Value.stays_str h.snapshotId,
    Value.stays_str h.epochId, h.rules.toObj, Value.stays_str h.amendmentReason,
    Value.stays_str h.author, Value.stays_str h.timestamp, Value.stays_str h.prevHash, h.diff_toObj,
    Value.stays_str h.snapshotDigest, List.forall_mem_nil _⟩

theorem get_record {k : Str} {v : P.Obj} (hm : (.str k, v) ∈ s.record) :
    get (s.record : Members P.Float) k = some v :=
  get_eq_some_of_mem s.namedItems_record.nodup hm

theorem diffOf_record (s : ConstitutionalSnapshot) :
    diffOf (s.record : Members P.Float) = .ok s.diff := by
  have hget : get (s.record : Members P.Float) (str "diff") = some s.diff.toObj :=
    get_record (by simp [record, payload])
  unfold diffOf
  rw [hget]
  unfold ConstitutionalDiff.toObj
  dsimp only
  rw [(namesAt_eq_ok rfl : namesAt _ (str "added") = .ok s.diff.added),
    (namesAt_eq_ok rfl : namesAt _ (str "removed") = .ok s.diff.removed),
    (namesAt_eq_ok rfl : namesAt _ (str "modified") = .ok s.diff.modified)]
  rfl

theorem snapshotOf_record (h : s.snapshotDigest ≠ []) :
    snapshotOf (s.record : Members P.Float) = .ok s := by
  have htext : ∀ {k t : Str}, (Key.str k, Value.str t) ∈ (s.record : Members P.Float) →
      textAt (s.record : Members P.Float) k = .ok t := fun hm => textAt_eq_ok (get_record hm)
  have hrules : fieldAt (s.record : Members P.Float) (str "rules") = .ok s.rules.toObj :=
    fieldAt_eq_ok (get_record (by simp [record, payload]))
  have hdigest : digestAt (s.record : Members P.Float) = .ok s.snapshotDigest := by
    have hget : get (s.record : Members P.Float) (str "snapshot_digest") =
        some (.str s.snapshotDigest) := get_record (by simp [record, payload])
    unfold digestAt
    rw [hget]
    rfl
  unfold snapshotOf
  rw [diffOf_record, htext (k := str "snapshot_id") (t := s.snapshotId) (by simp [record, payload]),
    htext (k := str "epoch_id") (t := s.epochId) (by simp [record, payload]), hrules,
    htext (k := str "amendment_reason") (t := s.amendmentReason) (by simp [record, payload]),
    htext (k := str "author") (t := s.author) (by simp [record, payload]),
    htext (k := str "timestamp") (t := s.timestamp) (by simp [record, payload]),
    htext (k := str "prev_hash") (t := s.prevHash) (by simp [record, payload]), hdigest]
  dsimp only [bind, Except.bind]
  rw [rulesOf_toObj]
  exact congrArg Except.ok (if_neg h)

theorem isSnapshot_record (s : ConstitutionalSnapshot) :
    isSnapshot (s.record : Members P.Float) = true :=
  rfl

end ConstitutionalSnapshot

theorem RollbackEvent.namedItems_record (evt : RollbackEvent) :
    NamedItems (evt.record : Members P.Float) :=
  NamedItems.of_names
    [str "action", str "event_id", str "target_snapshot_id", str "rolled_back_from", str "epoch_id",
      str "reason", str "author", str "timestamp", str "restored_rules", str "event_digest"] rfl
    (by decide) (by decide)

theorem RollbackEvent.isSnapshot_record (evt : RollbackEvent) :
    isSnapshot (readBack P evt.record) = false := by
  have hget : get (readBack P evt.record) (str "action") =
      some (.str (readAscii (str "rollback"))) := by
    rw [get_readBack]
    rfl
  unfold isSnapshot
  rw [hget, readAscii_of_ascii (by decide)]
  rfl

/-! ### What is read -/

theorem stay_of_textAt {row : Members P.Float} {k t : Str} (h : textAt (readBack P row) k = .ok t) :
    readAscii t = t := by
  obtain ⟨v, hv, ht⟩ := bind_eq_ok.mp h
  unfold fieldAt at hv
  rw [get_readBack] at hv
  cases hget : get row k with
  | none =>
    rw [hget] at hv
    cases hv
  | some w =>
    rw [hget] at hv
    obtain rfl := Except.ok.inj hv
    cases w with
    | str s =>
      obtain rfl := Except.ok.inj ht
      exact readAscii_readAscii s
    | none | bool | int | float | list | tuple | dict => cases ht

theorem stay_of_rulesOf {v : P.Obj} {rules : Rules}
    (h : rulesOf (image P (v.mapStr readAscii)) = .ok rules) : rules.Stay := by
  cases v with
  | none | bool | int | float | str | list | tuple => cases h
  | dict ms =>
    rw [Value.mapStr, mapStrMembers_eq_map, image] at h
    unfold rulesOf at h
    obtain ⟨items, hitems, h⟩ := bind_eq_ok.mp h
    split_ifs at h with hnodup
    obtain rfl := Except.ok.inj h
    intro m hm
    obtain ⟨x, hx, hrule⟩ := forall₂_mem (mapM_eq_ok.mp hitems) hm
    obtain ⟨y, hy, rfl⟩ := mem_dictOf hx
    rw [imageMembers_eq_map, List.map_map] at hy
    obtain ⟨⟨k, w⟩, -, rfl⟩ := List.mem_map.mp hy
    cases w with
    | str s =>
      obtain rfl := Except.ok.inj hrule
      refine ⟨?_, readAscii_readAscii s⟩
      cases k with
      | str k => exact readAscii_readAscii k
      | int i => exact readAscii_of_ascii fun c hc => (printable_of_mem_intText hc).2.trans (by decide)
      | float x =>
        exact readAscii_of_ascii fun c hc => (printable_of_mem_floatJson P hc).2.trans (by decide)
      | bool b =>
        exact readAscii_of_ascii fun c hc => (printable_of_mem_boolJson hc).2.trans (by decide)
      | none =>
        have hnull : ∀ c ∈ str "null", c < 128 := by decide
        exact readAscii_of_ascii hnull
    | none | bool | int | float | list | tuple | dict => cases hrule

theorem stay_of_snapshotOf {row : Members P.Float} {s : ConstitutionalSnapshot}
    (h : snapshotOf (readBack P row) = .ok s) :
    readAscii s.epochId = s.epochId ∧ s.rules.Stay ∧
      readAscii s.amendmentReason = s.amendmentReason ∧ readAscii s.author = s.author := by
  unfold snapshotOf at h
  obtain ⟨diff, -, h⟩ := bind_eq_ok.mp h
  obtain ⟨snapshotId, -, h⟩ := bind_eq_ok.mp h
  obtain ⟨epochId, hepoch, h⟩ := bind_eq_ok.mp h
  obtain ⟨rules, hrules, h⟩ := bind_eq_ok.mp h
  obtain ⟨amendmentReason, hreason, h⟩ := bind_eq_ok.mp h
  obtain ⟨author, hauthor, h⟩ := bind_eq_ok.mp h
  obtain ⟨timestamp, -, h⟩ := bind_eq_ok.mp h
  obtain ⟨prevHash, -, h⟩ := bind_eq_ok.mp h
  obtain ⟨snapshotDigest, -, h⟩ := bind_eq_ok.mp h
  obtain ⟨v, hfield, hrules⟩ := bind_eq_ok.mp hrules
  have hstay : rules.Stay := by
    unfold fieldAt at hfield
    rw [get_readBack] at hfield
    cases hget : get row (str "rules") with
    | none =>
      rw [hget] at hfield
      cases hfield
    | some w =>
      rw [hget] at hfield
      obtain rfl := Except.ok.inj hfield
      exact stay_of_rulesOf hrules
  obtain rfl := Except.ok.inj h
  unfold ConstitutionalSnapshot.postInit
  split_ifs <;>
    exact ⟨stay_of_textAt hepoch, hstay, stay_of_textAt hreason, stay_of_textAt hauthor⟩

/-! ### The ledger -/

variable (P) in
/-- What a row of the ledger adds to the snapshots. -/
def loadRow (snapshots : List ConstitutionalSnapshot) (row : Members P.Float) :
    Except LoadError (List ConstitutionalSnapshot) :=
  if isSnapshot (readBack P row) then
    (snapshotOf (readBack P row)).map fun s => snapshots ++ [s]
  else .ok snapshots

theorem loadLine_logLine {row : Members P.Float} (hrow : NamedItems row)
    (snapshots : List ConstitutionalSnapshot) :
    loadLine P snapshots (logLine P row) = loadRow P snapshots row := by
  unfold loadLine
  rw [strip_logLine, if_neg (logLine_ne_nil row), loads_logLine hrow]
  rfl

theorem loadLedger_of_rows {rows : List (Members P.Float)} (hnamed : ∀ row ∈ rows, NamedItems row)
    {ledger : Bytes} (hlog : LogRows P rows ledger) :
    loadLedger P ledger = rows.foldlM (loadRow P) [] := by
  have hlines : ∀ (rows : List (Members P.Float)) (acc : List ConstitutionalSnapshot),
      (∀ row ∈ rows, NamedItems row) →
        (rows.map (logLine P)).foldlM (loadLine P) acc = rows.foldlM (loadRow P) acc := by
    intro rows
    induction rows with
    | nil => exact fun _ _ => rfl
    | cons row rows ih =>
      intro acc hnamed
      obtain ⟨hrow, hrest⟩ := List.forall_mem_cons.mp hnamed
      rw [List.map_cons, List.foldlM_cons, List.foldlM_cons, loadLine_logLine hrow]
      exact bind_congr fun acc' => ih acc' hrest
  unfold loadLedger
  rw [hlog.readLines_eq]
  dsimp only
  rw [hlines rows [] hnamed]
  exact bind_pure _

variable (P) in
def Loads (ledger : Bytes) (snapshots : List ConstitutionalSnapshot) : Prop :=
  ∃ rows : List (Members P.Float), (∀ row ∈ rows, NamedItems row) ∧ LogRows P rows ledger ∧
    rows.foldlM (loadRow P) [] = .ok snapshots

namespace Loads

variable {ledger : Bytes} {snapshots : List ConstitutionalSnapshot}

theorem nil : Loads P [] [] :=
  ⟨[], List.forall_mem_nil _, LogRows.nil, rfl⟩

theorem loadLedger_eq (h : Loads P ledger snapshots) : loadLedger P ledger = .ok snapshots := by
  obtain ⟨rows, hnamed, hlog, hload⟩ := h
  rw [loadLedger_of_rows hnamed hlog, hload]

theorem append {snapshots' : List ConstitutionalSnapshot} {row : Members P.Float}
    (h : Loads P ledger snapshots) (hrow : NamedItems row)
    (hload : loadRow P snapshots row = .ok snapshots') :
    Loads P (appendRow P ledger row) snapshots' := by
  obtain ⟨rows, hnamed, hlog, hrows⟩ := h
  refine ⟨rows ++ [row], List.forall_mem_append.mpr ⟨hnamed, List.forall_mem_singleton.mpr hrow⟩,
    hlog.append row, ?_⟩
  rw [List.foldlM_append, hrows]
  exact (bind_pure _).trans hload

theorem append_snapshot {s : ConstitutionalSnapshot} (h : Loads P ledger snapshots) (hs : s.Stay) :
    Loads P (appendRow P ledger s.record) (snapshots ++ [s]) := by
  refine h.append s.namedItems_record ?_
  unfold loadRow
  rw [hs.readBack_record, if_pos s.isSnapshot_record,
    ConstitutionalSnapshot.snapshotOf_record hs.digested]
  rfl

theorem append_rollback (h : Loads P ledger snapshots) (evt : RollbackEvent) :
    Loads P (appendRow P ledger evt.record) snapshots := by
  refine h.append evt.namedItems_record (if_neg ?_)
  rw [evt.isSnapshot_record]
  exact Bool.false_ne_true

end Loads

/-! ### The chain -/

def ledgerFormat : Chain.Format Str ConstitutionalSnapshot where
  prev := ConstitutionalSnapshot.prevHash
  hash := ConstitutionalSnapshot.snapshotDigest
  digest _ s := some s.snapshotDigest

theorem verifyFrom_eq_ok {digest : Str} {snapshots : List ConstitutionalSnapshot} :
    verifyFrom P digest snapshots = .ok true ↔ ledgerFormat.Valid digest snapshots := by
  induction snapshots generalizing digest with
  | nil => exact iff_of_true rfl trivial
  | cons s rest ih =>
    rw [verifyFrom, Chain.Format.valid_cons]
    split_ifs with hprev
    · exact ih.trans (and_iff_right ⟨hprev, rfl⟩).symm
    · refine iff_of_false (fun h => ?_) fun h => hprev h.1.1
      cases h

theorem tail_eq (snapshots : List ConstitutionalSnapshot) :
    ledgerFormat.tail genesisHash snapshots =
      snapshots.getLast?.elim genesisHash ConstitutionalSnapshot.snapshotDigest := by
  rcases List.eq_nil_or_concat snapshots with rfl | ⟨rest, s, rfl⟩
  · rfl
  · rw [List.concat_eq_append, Chain.Format.tail_concat, List.getLast?_concat]
    rfl

/-! ### The snapshot of a call -/

/-- The texts of the call are read as they were written. -/
structure SnapshotCall.Stay (call : SnapshotCall) : Prop where
  epochId : readAscii call.epochId = call.epochId
  rules : call.rules.Stay
  amendmentReason : readAscii call.amendmentReason = call.amendmentReason
  author : readAscii call.author = call.author

theorem mem_sortNames {names : List Str} {k : Str} : k ∈ sortNames names ↔ k ∈ names :=
  (List.perm_insertionSort _ names).mem_iff

theorem stay_computeDiff {a b : Rules} (ha : a.Stay) (hb : b.Stay) :
    ∀ k ∈ (computeDiff a b).added ++ ((computeDiff a b).removed ++ (computeDiff a b).modified),
      readAscii k = k := by
  have hkeys : ∀ {rules : Rules}, rules.Stay → ∀ k ∈ Assoc.keys rules.items, readAscii k = k := by
    intro rules h k hk
    obtain ⟨m, hm, rfl⟩ := List.mem_map.mp hk
    exact (h m hm).1
  intro k hk
  rcases List.mem_append.mp hk with hk | hk
  · exact hkeys hb k (List.mem_of_mem_filter (mem_sortNames.mp hk))
  · rcases List.mem_append.mp hk with hk | hk
    · exact hkeys ha k (List.mem_of_mem_filter (mem_sortNames.mp hk))
    · exact hkeys ha k (List.mem_of_mem_filter (mem_sortNames.mp hk))

namespace SnapshotCall

variable {call : SnapshotCall} {snapshots : List ConstitutionalSnapshot}

theorem snapshotId_make : (call.make P snapshots).snapshotId =
    str "SNAP-" ++ call.epochId ++ 45 :: paddedText 4 snapshots.length :=
  rfl

theorem prevHash_make : (call.make P snapshots).prevHash =
    snapshots.getLast?.elim genesisHash ConstitutionalSnapshot.snapshotDigest :=
  rfl

theorem Stay.make (h : call.Stay) (hs : ∀ s ∈ snapshots, s.Stay) : (call.make P snapshots).Stay where
  snapshotId := by
    have hdigits : ∀ c ∈ (45 :: paddedText 4 snapshots.length), c < 128 := by
      refine List.forall_mem_cons.mpr ⟨by decide, fun c hc => ?_⟩
      have := isDigit_of_mem_paddedText hc
      simp only [isDigit, Bool.and_eq_true, decide_eq_true_eq] at this
      omega
    rw [snapshotId_make, readAscii_append fun c hc => ?_, readAscii_append_of_ascii (by decide),
      h.epochId, readAscii_of_ascii hdigits]
    obtain rfl := Option.some.inj hc
    decide
  epochId := h.epochId
  rules := h.rules
  amendmentReason := h.amendmentReason
  author := h.author
  timestamp := readAscii_of_ascii call.now.ascii
  prevHash := by
    rw [prevHash_make]
    cases hlast : snapshots.getLast? with
    | none => exact readAscii_of_ascii (by decide)
    | some s => exact (hs s (List.mem_of_getLast? hlast)).snapshotDigest
  diff := by
    refine stay_computeDiff ?_ h.rules
    cases hlast : snapshots.getLast? with
    | none => exact List.forall_mem_nil _
    | some s => exact (hs s (List.mem_of_getLast? hlast)).rules
  snapshotDigest := readAscii_of_ascii (ascii_jsonDigest _)
  digested := jsonDigest_ne_nil _

end SnapshotCall

/-! ### States -/

variable (P) in
/-- A new engine on the ledger has the head, the snapshots and the rules of the old one, their ids are
distinct, and the chain is intact. -/
structure Faithful (e : Engine) : Prop where
  recreated : ∃ e', e.recreate P = .ok e' ∧ e'.head = e.head ∧ e'.listSnapshots = e.listSnapshots ∧
    e'.snapshots.map ConstitutionalSnapshot.rules = e.snapshots.map ConstitutionalSnapshot.rules
  unique : e.listSnapshots.Nodup
  verified : e.verifyChain P = .ok true

/-- The texts of a snapshot that is made are read as they were written, and a rollback that is let
through is to the head. -/
def Admitted (e : Engine) : Action → Prop
  | .snapshot call => call.epochId ≠ [] → call.Stay
  | .rollback call => governor <:+: call.ratificationToken →
      call.targetSnapshotId ∈ e.listSnapshots →
        e.head.map ConstitutionalSnapshot.snapshotId = some call.targetSnapshotId
  | .recreate => True

variable (P) in
/-- The ledger has the snapshots, and each id has the index of its snapshot. -/
structure Kept (e : Engine) : Prop where
  loads : Loads P e.ledger e.snapshots
  linked : ledgerFormat.Valid genesisHash e.snapshots
  numbered : ∀ i s, e.snapshots[i]? = some s →
    ∃ epochId, s.snapshotId = str "SNAP-" ++ epochId ++ 45 :: paddedText 4 i
  stays : ∀ s ∈ e.snapshots, s.Stay

namespace Kept

variable {e : Engine}

theorem new : Kept P Engine.new where
  loads := Loads.nil
  linked := trivial
  numbered i s h := by cases h
  stays := List.forall_mem_nil _

theorem recreate_eq (h : Kept P e) : e.recreate P = .ok e := by
  unfold Engine.recreate
  rw [h.loads.loadLedger_eq]
  rfl

theorem nodup (h : Kept P e) : e.listSnapshots.Nodup := by
  rw [List.nodup_iff_getElem?_ne_getElem?]
  intro i j hij hj heq
  rw [Engine.listSnapshots, List.length_map] at hj
  rw [Engine.listSnapshots, List.getElem?_map, List.getElem?_map,
    List.getElem?_eq_getElem hj, List.getElem?_eq_getElem (hij.trans hj)] at heq
  obtain ⟨epoch, hi⟩ := h.numbered i _ (List.getElem?_eq_getElem (hij.trans hj))
  obtain ⟨epoch', hj'⟩ := h.numbered j _ (List.getElem?_eq_getElem hj)
  rw [Option.map_some, Option.map_some, Option.some.injEq, hi, hj'] at heq
  exact hij.ne (eq_of_append_paddedText (by decide) heq).2

theorem faithful (h : Kept P e) : Faithful P e where
  recreated := ⟨e, h.recreate_eq, rfl, rfl, rfl⟩
  unique := h.nodup
  verified := verifyFrom_eq_ok.mpr h.linked

theorem snapshot {call : SnapshotCall} (h : Kept P e) (hcall : Admitted e (.snapshot call)) :
    Kept P (e.snapshot P call).2 := by
  unfold Engine.snapshot
  split_ifs with hepoch
  · exact h
  · have hs : (call.make P e.snapshots).Stay := (hcall hepoch).make h.stays
    refine ⟨h.loads.append_snapshot hs, ?_, ?_, ?_⟩
    · refine Chain.Format.valid_concat _ |>.mpr ⟨h.linked, ?_, rfl⟩
      exact (@SnapshotCall.prevHash_make P call e.snapshots).trans (tail_eq e.snapshots).symm
    · intro i s hi
      rcases lt_trichotomy i e.snapshots.length with hlt | rfl | hgt
      · rw [List.getElem?_append_left hlt] at hi
        exact h.numbered i s hi
      · rw [List.getElem?_concat_length] at hi
        obtain rfl := Option.some.inj hi
        exact ⟨call.epochId, rfl⟩
      · rw [List.getElem?_eq_none (by simpa using hgt)] at hi
        cases hi
    · exact List.forall_mem_append.mpr ⟨h.stays, List.forall_mem_singleton.mpr hs⟩

theorem take_head {target : Str} (h : Kept P e)
    (hhead : e.head.map ConstitutionalSnapshot.snapshotId = some target) :
    e.snapshots.take (e.snapshots.findIdx (fun s => s.snapshotId = target) + 1) = e.snapshots := by
  rcases List.eq_nil_or_concat e.snapshots with hnil | ⟨rest, s, hconcat⟩
  · rw [hnil, List.take_nil]
  · have hnodup := h.nodup
    rw [Engine.head, hconcat, List.concat_eq_append, List.getLast?_concat, Option.map_some,
      Option.some.injEq] at hhead
    rw [Engine.listSnapshots, hconcat, List.concat_eq_append, List.map_append,
      List.map_singleton, hhead, List.nodup_append] at hnodup
    have hbefore : ∀ s ∈ rest, decide (s.snapshotId = target) = false := fun s hs =>
      decide_eq_false (hnodup.2.2 _ (List.mem_map_of_mem hs) _ (List.mem_singleton_self target))
    have hle : rest.length ≤ e.snapshots.findIdx fun s => s.snapshotId = target := by
      rw [hconcat, List.concat_eq_append, List.findIdx_append,
        List.findIdx_eq_length_of_false hbefore]
      split_ifs <;> omega
    refine List.take_of_length_le ?_
    rw [hconcat, List.length_concat]
    rw [hconcat] at hle
    omega

theorem rollback {call : RollbackCall} (h : Kept P e) (hcall : Admitted e (.rollback call)) :
    Kept P (e.rollback P call).2 := by
  unfold Engine.rollback
  by_cases htoken : governor <:+: call.ratificationToken
  · rw [if_neg (not_not.mpr htoken)]
    split_ifs with htarget
    · exact h
    · cases hfind : e.findSnapshot call.targetSnapshotId with
      | none => exact h
      | some target =>
        have hid : target.snapshotId = call.targetSnapshotId := by
          simpa using List.find?_some hfind
        have hmem : call.targetSnapshotId ∈ e.listSnapshots :=
          hid ▸ List.mem_map_of_mem (List.mem_of_find?_eq_some hfind)
        have htake := h.take_head (hcall htoken hmem)
        dsimp only
        rw [htake]
        exact ⟨h.loads.append_rollback _, h.linked, h.numbered, h.stays⟩
  · rw [if_pos htoken]
    exact h

theorem step {a : Action} (h : Kept P e) (ha : Admitted e a) : Kept P (e.step P a) := by
  cases a with
  | snapshot call => exact h.snapshot ha
  | rollback call => exact h.rollback ha
  | recreate =>
    rw [Engine.step, h.recreate_eq]
    exact h

/-! ### What a new engine shows -/

theorem rollback_admitted {call : RollbackCall} (h : Kept P e)
    (hf : Faithful P (e.rollback P call).2) : Admitted e (.rollback call) := by
  intro htoken hmem
  obtain ⟨s, hs, hid⟩ := List.mem_map.mp hmem
  have hfind : (e.findSnapshot call.targetSnapshotId).isSome := by
    rw [Engine.findSnapshot, List.find?_isSome]
    exact ⟨s, hs, decide_eq_true hid⟩
  obtain ⟨target, htarget⟩ := Option.isSome_iff_exists.mp hfind
  have hne : call.targetSnapshotId ≠ [] := by
    obtain ⟨i, hi⟩ := List.getElem?_of_mem hs
    obtain ⟨epoch, hnumber⟩ := h.numbered i s hi
    rw [← hid, hnumber, List.append_assoc]
    exact List.cons_ne_nil _ _
  obtain ⟨e', hrecreate, -, hlist, -⟩ := hf.recreated
  unfold Engine.rollback at hrecreate hlist
  rw [if_neg (not_not.mpr htoken), if_neg hne, htarget] at hrecreate hlist
  unfold Engine.recreate at hrecreate
  dsimp only at hrecreate hlist
  rw [(h.loads.append_rollback _).loadLedger_eq] at hrecreate
  obtain rfl := Except.ok.inj hrecreate
  have hlength := congrArg List.length hlist
  rw [Engine.listSnapshots, Engine.listSnapshots, List.length_map, List.length_map,
    List.length_take] at hlength
  dsimp only at hlength
  have hlt : e.snapshots.findIdx (fun s => s.snapshotId = call.targetSnapshotId) <
      e.snapshots.length :=
    List.findIdx_lt_length_of_exists ⟨s, hs, decide_eq_true hid⟩
  have hfound : (e.snapshots[e.snapshots.findIdx
      (fun s => s.snapshotId = call.targetSnapshotId)]).snapshotId = call.targetSnapshotId := by
    simpa using List.findIdx_getElem (w := hlt)
  have hlast : e.snapshots.findIdx (fun s => s.snapshotId = call.targetSnapshotId) =
      e.snapshots.length - 1 := by omega
  rw [Engine.head, List.getLast?_eq_getElem?, ← hlast, List.getElem?_eq_getElem hlt,
    Option.map_some, hfound]

theorem snapshot_admitted {call : SnapshotCall} (h : Kept P e)
    (hf : Faithful P (e.snapshot P call).2) : Admitted e (.snapshot call) := by
  intro hepoch
  obtain ⟨e', hrecreate, hhead, -⟩ := hf.recreated
  unfold Engine.snapshot at hrecreate hhead
  rw [if_neg hepoch] at hrecreate hhead
  obtain ⟨rows, hnamed, hlog, hrows⟩ := h.loads
  have hload := loadLedger_of_rows
    (List.forall_mem_append.mpr ⟨hnamed, List.forall_mem_singleton.mpr
      (call.make P e.snapshots).namedItems_record⟩) (hlog.append (call.make P e.snapshots).record)
  have hsnapshot : isSnapshot (readBack P (call.make P e.snapshots).record) = true := by
    unfold isSnapshot
    rw [get_readBack]
    exact decide_eq_true (readAscii_of_ascii (by decide))
  rw [List.foldlM_append, hrows] at hload
  unfold Engine.recreate at hrecreate
  dsimp only at hrecreate hhead
  rw [hload] at hrecreate
  obtain ⟨snapshots, hsnapshots, rfl⟩ := map_eq_ok.mp hrecreate
  have hrow : loadRow P e.snapshots (call.make P e.snapshots).record = .ok snapshots :=
    (bind_pure _).symm.trans hsnapshots
  unfold loadRow at hrow
  rw [if_pos hsnapshot] at hrow
  obtain ⟨s, hs, rfl⟩ := map_eq_ok.mp hrow
  have heq : s = call.make P e.snapshots := by
    rw [Engine.head, Engine.head, List.getLast?_concat, List.getLast?_concat] at hhead
    exact Option.some.inj hhead
  obtain ⟨hepochId, hrules, hreason, hauthor⟩ := stay_of_snapshotOf hs
  rw [heq] at hepochId hrules hreason hauthor
  exact ⟨hepochId, hrules, hreason, hauthor⟩

theorem admitted {a : Action} (h : Kept P e) (hf : Faithful P (e.step P a)) : Admitted e a := by
  cases a with
  | snapshot call => exact h.snapshot_admitted hf
  | rollback call => exact h.rollback_admitted hf
  | recreate => trivial

end Kept

/-- A new engine is the old one in every state of a run exactly when all its actions are admitted. -/
theorem always_faithful_iff (P : Platform) (actions : List Action) :
    Run.Always (Engine.step P) (Faithful P) Engine.new actions ↔
      Run.Meets (Engine.step P) Admitted Engine.new actions :=
  Run.always_iff_meets_of_kept (fun _ => Kept.faithful) (fun _ _ hs ha => Kept.step hs ha)
    (fun _ _ hs hf => hs.admitted hf) Kept.new

/-! ### A rollback that is forgotten -/

def oneRule (epochId body : Str) : SnapshotCall where
  epochId := epochId
  rules := ⟨[(str "R1", body)], List.nodup_singleton _⟩
  amendmentReason := str "amended"
  author := str "DEVADAAD"
  now := ⟨str "2026-01-01T00:00:00Z", by decide⟩

def toFirst : RollbackCall where
  targetSnapshotId := str "SNAP-e1-0000"
  currentEpochId := str "e3"
  reason := str "regression"
  ratificationToken := str "ratified by DUSTIN L REID"
  now := ⟨str "2026-01-01T00:00:00Z", by decide⟩

/-- After two snapshots and a rollback to the first, a new engine has both. -/
theorem not_always_faithful : ¬ ∀ actions : List Action,
    Run.Always (Engine.step reference) (Faithful reference) Engine.new actions := by
  intro h
  have hstay : (oneRule (str "e1") (str "a")).Stay ∧ (oneRule (str "e2") (str "b")).Stay := by
    refine ⟨⟨?_, ?_, ?_, ?_⟩, ?_, ?_, ?_, ?_⟩ <;> first
      | exact readAscii_of_ascii (by decide)
      | exact List.forall_mem_singleton.mpr ⟨by decide, by decide⟩
  have hfirst : Kept reference (Engine.new.snapshot reference (oneRule (str "e1") (str "a"))).2 :=
    Kept.new.snapshot fun _ => hstay.1
  have hkept : Kept reference ((Engine.new.snapshot reference (oneRule (str "e1") (str "a"))).2.snapshot
      reference (oneRule (str "e2") (str "b"))).2 := hfirst.snapshot fun _ => hstay.2
  obtain ⟨-, -, -, hlast⟩ := h [.snapshot (oneRule (str "e1") (str "a")),
    .snapshot (oneRule (str "e2") (str "b")), .rollback toFirst]
  have hhead := hkept.rollback_admitted hlast (by decide) (by decide +kernel)
  revert hhead
  decide +kernel

end Adaad.Innovations.ConstitutionalRollback
