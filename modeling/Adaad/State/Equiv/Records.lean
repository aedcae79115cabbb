import Adaad.Chain
import Adaad.Py.Json.Equiv.AsciiRows
import Adaad.State.LedgerStore

/-!
# Events that are read back

The event of a record is read with its items sorted.  The envelope that is rebuilt of it has the
payload sorted, and differs in nothing else: it is valid where the one that was appended is, and has
its canonical content and its record hash (`envelopeOf_sorted`, `recordHash_sorted`).
-/

namespace Adaad.LedgerStore

open Py EventSigning AgmEvent

variable {P : Platform} {e : AGMEventEnvelope P}

/-! ### Sorted documents -/

theorem dumpsSorted_of_sortKeys {v w : P.Obj} (h : sortKeys P v = some w) (hp : v.Plain)
    (L : Layout) : dumpsSorted P L w = dumpsSorted P L v := by
  unfold dumpsSorted
  rw [h, sortKeys_sortKeys P h hp]

theorem exists_sortKeys_perm {ms : Members P.Float} {w : P.Obj} (h : sortKeys P (.dict ms) = some w) :
    ∃ ns, w = .dict ns ∧ ∃ vs, ns.Perm vs ∧
      List.Forall₂ (fun m n => m.1 = n.1 ∧ sortKeys P m.2 = some n.2) ms vs := by
  obtain ⟨vs, hvs, -, rfl⟩ := (sortKeys_dict_eq_some P).mp h
  exact ⟨_, rfl, vs, perm_sortMembers P vs, (sortKeysMembers_eq_some P).mp hvs⟩

/-! ### The items of an event -/

def JsonPayload (e : AGMEventEnvelope P) : Prop :=
  (Value.dict e.payload).Plain ∧ (Value.dict e.payload).WF

theorem namedItems_asDict (e : AGMEventEnvelope P) : NamedItems e.asDict :=
  .of_names [str "schema_version", str "event_id", str "event_type", str "emitted_at", str "payload",
    str "signature", str "signing_key_id", str "signature_algorithm"] rfl (by decide) (by decide)

theorem plain_asDict (h : JsonPayload e) : (Value.dict e.asDict).Plain := by
  rw [Value.Plain, plainMembers_iff]
  intro m hm
  refine ⟨(namedItems_asDict e).isString hm, ?_⟩
  simp only [AGMEventEnvelope.asDict, List.mem_cons, List.not_mem_nil, or_false] at hm
  rcases hm with rfl | rfl | rfl | rfl | rfl | rfl | rfl | rfl <;> first | exact h.1 | trivial

theorem wf_asDict (h : JsonPayload e) : (Value.dict e.asDict).WF := by
  rw [Value.WF, wfMembers_iff]
  refine ⟨(namedItems_asDict e).nodup, fun m hm => ?_⟩
  simp only [AGMEventEnvelope.asDict, List.mem_cons, List.not_mem_nil, or_false] at hm
  rcases hm with rfl | rfl | rfl | rfl | rfl | rfl | rfl | rfl <;> first | exact h.2 | trivial

/-! ### The envelope that is rebuilt -/

def withPayload (e : AGMEventEnvelope P) (payload : Members P.Float) : AGMEventEnvelope P :=
  { e with payload := payload }

theorem envelopeOf_sorted {event payload : Members P.Float}
    (hevent : sortKeys P (.dict e.asDict) = some (.dict event))
    (hpayload : sortKeys P (.dict e.payload) = some (.dict payload)) :
    envelopeOf event = .ok (withPayload e payload) := by
  have hget := get_sortKeys hevent (namedItems_asDict e).nodup
  have htext : ∀ key s, get e.asDict key = some (.str s) → textAt event key = s := by
    intro key s hs
    unfold textAt
    rw [hget, hs]
    rfl
  have hat : get event (str "payload") = some (.dict payload) := (hget _).trans hpayload
  have hor : (orElse P (get event (str "payload")) (some (.dict []))).getD (.dict []) =
      .dict payload := by
    rw [hat]
    cases payload <;> rfl
  unfold envelopeOf
  rw [hor, htext (str "schema_version") e.schemaVersion rfl, htext (str "event_id") e.eventId rfl,
    htext (str "event_type") e.eventType rfl, htext (str "emitted_at") e.emittedAt rfl,
    htext (str "signature") e.signature rfl, htext (str "signing_key_id") e.signingKeyId rfl,
    htext (str "signature_algorithm") e.signatureAlgorithm rfl]
  rfl

theorem validateStep11_sorted {payload : Members P.Float} (h : JsonPayload e)
    (hpayload : sortKeys P (.dict e.payload) = some (.dict payload))
    (hvalid : validateStep11CommitContract e.payload = .ok ()) :
    validateStep11CommitContract payload = .ok () := by
  have hnodup : (e.payload.map Prod.fst).Nodup := by
    have := h.2
    rw [Value.WF] at this
    exact this.1
  have hget := get_sortKeys hpayload hnodup
  unfold validateStep11CommitContract at hvalid ⊢
  rw [hget, hget]
  cases hsha : get e.payload (str "step_11_commit_sha") with
  | none =>
    rw [hsha] at hvalid
    cases hvalid
  | some sha =>
    rw [hsha] at hvalid
    cases sha with
    | str s =>
      dsimp only at hvalid
      split_ifs at hvalid with hhex
      show (if isHexOfLength 40 s then _ else _) = _
      rw [if_pos hhex]
      cases hpassed : get e.payload (str "step_11_contract_passed") with
      | none =>
        rw [hpassed] at hvalid
        cases hvalid
      | some passed =>
        rw [hpassed] at hvalid
        cases passed with
        | bool b => exact hvalid
        | none | int | float | str | list | tuple | dict => cases hvalid
    | none | bool | int | float | list | tuple | dict => cases hvalid

theorem validate_sorted {d : Digits P} {payload : Members P.Float} (h : JsonPayload e)
    (hpayload : sortKeys P (.dict e.payload) = some (.dict payload))
    (hvalid : validateEventEnvelope d e = .ok ()) :
    validateEventEnvelope d (withPayload e payload) = .ok () := by
  obtain ⟨_, h₁, hvalid⟩ := bind_eq_ok.mp hvalid
  obtain ⟨_, h₂, hvalid⟩ := bind_eq_ok.mp hvalid
  obtain ⟨_, h₃, hvalid⟩ := bind_eq_ok.mp hvalid
  obtain ⟨_, h₄, hvalid⟩ := bind_eq_ok.mp hvalid
  obtain ⟨_, h₅, hvalid⟩ := bind_eq_ok.mp hvalid
  obtain ⟨_, h₆, hvalid⟩ := bind_eq_ok.mp hvalid
  obtain ⟨_, h₇, hvalid⟩ := bind_eq_ok.mp hvalid
  refine bind_eq_ok.mpr ⟨_, h₁, bind_eq_ok.mpr ⟨_, h₂, bind_eq_ok.mpr ⟨_, h₃, bind_eq_ok.mpr ⟨_, h₄,
    bind_eq_ok.mpr ⟨_, h₅, bind_eq_ok.mpr ⟨_, h₆, bind_eq_ok.mpr ⟨_, h₇, ?_⟩⟩⟩⟩⟩⟩⟩
  show (if e.eventType = str "deployment_gating_event" then validateStep11CommitContract payload
    else .ok ()) = _
  by_cases htype : e.eventType = str "deployment_gating_event"
  · rw [if_pos htype] at hvalid ⊢
    exact validateStep11_sorted h hpayload hvalid
  · rw [if_neg htype]

/-! ### What is signed and hashed -/

theorem dumpsSorted_asDict {payload : Members P.Float} (h : JsonPayload e)
    (hpayload : sortKeys P (.dict e.payload) = some (.dict payload)) (L : Layout) :
    dumpsSorted P L (.dict (withPayload e payload).asDict) = dumpsSorted P L (.dict e.asDict) :=
  dumpsSorted_dict_congr P (.cons ⟨rfl, rfl⟩ (.cons ⟨rfl, rfl⟩ (.cons ⟨rfl, rfl⟩ (.cons ⟨rfl, rfl⟩
    (.cons ⟨rfl, dumpsSorted_of_sortKeys hpayload h.1 L⟩ (.cons ⟨rfl, rfl⟩ (.cons ⟨rfl, rfl⟩
      (.cons ⟨rfl, rfl⟩ .nil))))))))

theorem canonicalEventContent_sorted {payload : Members P.Float} (h : JsonPayload e)
    (hpayload : sortKeys P (.dict e.payload) = some (.dict payload)) :
    canonicalEventContent (withPayload e payload) = canonicalEventContent e :=
  canonicalJson_congr (dumpsSorted_dict_congr P (.cons ⟨rfl, rfl⟩ (.cons ⟨rfl, rfl⟩
    (.cons ⟨rfl, rfl⟩ (.cons ⟨rfl, rfl⟩ (.cons ⟨rfl, dumpsSorted_of_sortKeys hpayload h.1 .compact⟩
      .nil))))))

theorem recordHash_sorted {payload : Members P.Float} (h : JsonPayload e)
    (hpayload : sortKeys P (.dict e.payload) = some (.dict payload)) (prevHash : Str) :
    recordHash (withPayload e payload) prevHash = recordHash e prevHash := by
  have hcongr : dumpsSorted P .compact (.dict (recordOf (withPayload e payload) prevHash)) =
      dumpsSorted P .compact (.dict (recordOf e prevHash)) :=
    dumpsSorted_dict_congr P (.cons ⟨rfl, dumpsSorted_asDict h hpayload .compact⟩ (.cons ⟨rfl, rfl⟩
      (.cons ⟨rfl, rfl⟩ (.cons ⟨rfl, rfl⟩ (.cons ⟨rfl, rfl⟩ .nil)))))
  unfold recordHash
  rw [canonicalJson_congr hcongr]

theorem recordHash_eq_ok {prevHash hash : Str} (h : recordHash e prevHash = .ok hash) :
    (∀ c ∈ hash, c < 128) ∧ Encodable (Value.dict (recordOf e prevHash)).chars := by
  obtain ⟨text, htext, h⟩ := bind_eq_ok.mp h
  unfold canonicalJson at htext
  cases hsorted : dumpsSorted P .compact (.dict (recordOf e prevHash)) with
  | none =>
    rw [hsorted] at htext
    cases htext
  | some t =>
    rw [hsorted] at htext
    obtain rfl := Except.ok.inj htext
    unfold digestOf at h
    cases hb : encode t with
    | none =>
      rw [hb] at h
      cases h
    | some b =>
      rw [hb] at h
      obtain rfl := Except.ok.inj h
      refine ⟨ascii_prefixed_sha256 P b, ?_⟩
      obtain ⟨w, hw, rfl⟩ := Option.map_eq_some_iff.mp hsorted
      have hencodable := (encodable_dumps_iff P .compact).mp (exists_encode_iff.mp ⟨b, hb⟩)
      exact fun c hc => hencodable c ((mem_chars_sortKeys P hw).mpr hc)

end Adaad.LedgerStore

/-!
## The records of the two backends

The rows of the file and of the table stand for the same chain of records (`Stored`).  Read back,
they are equal but for the order of their items, and `verify_chain` finds them intact
(`verifyRecords_of_reads`).
-/

namespace Adaad.LedgerStore

open Py EventSigning AgmEvent

variable {P : Platform}

/-! ### Stored records -/

variable (P) in
/-- A record that was stored: its event, the hash before it and its own. -/
structure Stored where
  event : AGMEventEnvelope P
  prevHash : Str
  hash : Str

def chainFormat : Chain.Format Str (Stored P) where
  prev := Stored.prevHash
  hash := Stored.hash
  digest h s := (recordHash s.event h).toOption

def Stored.items (s : Stored P) : Members P.Float :=
  fullRecord s.event s.prevHash s.hash

/-- The event is valid, and its signature is accepted. -/
structure Signed (d : Digits P) (V : EventVerifier) (e : AGMEventEnvelope P) : Prop where
  valid : validateEventEnvelope d e = .ok ()
  verified : ∀ content, canonicalEventContent e = .ok content → V content e.bundle = true
  payload : JsonPayload e

theorem namedItems_items (s : Stored P) : NamedItems s.items :=
  .of_names [str "event", str "prev_hash", str "signature", str "signing_key_id",
    str "signature_algorithm", str "record_hash"] rfl (by decide) (by decide)

theorem plain_items {s : Stored P} (h : JsonPayload s.event) : (Value.dict s.items).Plain := by
  rw [Value.Plain, plainMembers_iff]
  intro m hm
  refine ⟨(namedItems_items s).isString hm, ?_⟩
  simp only [Stored.items, fullRecord, recordOf, List.cons_append, List.nil_append, List.mem_cons,
    List.not_mem_nil, or_false] at hm
  rcases hm with rfl | rfl | rfl | rfl | rfl | rfl <;> first | exact plain_asDict h | trivial

theorem wf_items {s : Stored P} (h : JsonPayload s.event) : (Value.dict s.items).WF := by
  rw [Value.WF, wfMembers_iff]
  refine ⟨(namedItems_items s).nodup, fun m hm => ?_⟩
  simp only [Stored.items, fullRecord, recordOf, List.cons_append, List.nil_append, List.mem_cons,
    List.not_mem_nil, or_false] at hm
  rcases hm with rfl | rfl | rfl | rfl | rfl | rfl <;> first | exact wf_asDict h | trivial

/-! ### Records that are read back -/

/-- What is read of a stored record: its items, each sorted. -/
def Reads (s : Stored P) (record : Members P.Float) : Prop :=
  ∀ k, get record k = (get s.items k).bind (sortKeys P)

theorem Reads.event {s : Stored P} {record : Members P.Float} (h : Reads s record) :
    get record (str "event") = sortKeys P (.dict s.event.asDict) := h _

theorem Reads.prevHash {s : Stored P} {record : Members P.Float} (h : Reads s record) :
    get record (str "prev_hash") = some (.str s.prevHash) := h _

theorem Reads.recordHash {s : Stored P} {record : Members P.Float} (h : Reads s record) :
    get record (str "record_hash") = some (.str s.hash) := h _

theorem reads_of_sortKeys {s : Stored P} {row : Members P.Float}
    (h : sortKeys P (.dict s.items) = some (.dict row)) : Reads s row :=
  get_sortKeys h (namedItems_items s).nodup

theorem exists_sortKeys_event {e : AGMEventEnvelope P} (h : JsonPayload e) :
    ∃ event payload, sortKeys P (.dict e.asDict) = some (.dict event) ∧
      sortKeys P (.dict e.payload) = some (.dict payload) := by
  obtain ⟨w, hw⟩ := exists_sortKeys P (plain_asDict h)
  obtain ⟨u, hu⟩ := exists_sortKeys P h.1
  obtain ⟨event, rfl, -⟩ := exists_sortKeys_perm hw
  obtain ⟨payload, rfl, -⟩ := exists_sortKeys_perm hu
  exact ⟨event, payload, hw, hu⟩

variable {d : Digits P} {V : EventVerifier}

theorem verifyRecord_of_reads {s : Stored P} {record : Members P.Float} {prev : Str}
    (hreads : Reads s record) (hsigned : Signed d V s.event) (hlinks : chainFormat.Links prev s) :
    verifyRecord d V prev record = .ok (.ok s.hash) := by
  obtain ⟨event, payload, hevent, hpayload⟩ := exists_sortKeys_event hsigned.payload
  obtain ⟨hprev, hdigest⟩ := hlinks
  have hprev : s.prevHash = prev := hprev
  have hhash : recordHash s.event s.prevHash = .ok s.hash := by
    rw [hprev]
    cases hresult : recordHash s.event prev with
    | error x =>
      simp only [chainFormat, hresult, Except.toOption] at hdigest
      cases hdigest
    | ok hash =>
      simp only [chainFormat, hresult, Except.toOption] at hdigest
      rw [Option.some.inj hdigest]
  have hvalid : validEnvelope d event = .ok (some (withPayload s.event payload)) := by
    unfold validEnvelope
    rw [envelopeOf_sorted hevent hpayload]
    dsimp only
    rw [validate_sorted hsigned.payload hpayload hsigned.valid]
  obtain ⟨content, hcontent⟩ : ∃ content, canonicalEventContent s.event = .ok content := by
    have hplain : (Value.dict (s.event.asDict.take 5)).Plain := by
      rw [Value.Plain, plainMembers_iff]
      intro m hm
      have := plain_asDict hsigned.payload
      rw [Value.Plain, plainMembers_iff] at this
      exact this m (List.mem_of_mem_take hm)
    obtain ⟨w, hw⟩ := exists_sortKeys P hplain
    exact ⟨_, canonicalJson_of_sortKeys hw⟩
  have hcontent' : canonicalEventContent (withPayload s.event payload) = .ok content :=
    (canonicalEventContent_sorted hsigned.payload hpayload).trans hcontent
  have hverified : V content (withPayload s.event payload).bundle = true :=
    hsigned.verified content hcontent
  have hhash' : recordHash (withPayload s.event payload) s.prevHash = .ok s.hash :=
    (recordHash_sorted hsigned.payload hpayload s.prevHash).trans hhash
  unfold verifyRecord
  rw [hreads.prevHash]
  dsimp only
  rw [if_neg (not_not.mpr hprev), hreads.event, hevent]
  dsimp only
  rw [hvalid]
  show (canonicalEventContent (withPayload s.event payload) >>= _) = _
  rw [hcontent']
  show (if V content (withPayload s.event payload).bundle = true then _ else _) = _
  rw [if_pos hverified]
  show (recordHash (withPayload s.event payload) s.prevHash >>= _) = _
  rw [hhash', hreads.recordHash]
  show (if s.hash = s.hash then _ else _) = _
  rw [if_pos rfl]
  rfl

theorem verifyRecords_of_reads {stored : List (Stored P)} {records : List (Members P.Float)}
    (hreads : List.Forall₂ Reads stored records) {prev : Str}
    (hvalid : chainFormat.Valid prev stored) (hsigned : ∀ s ∈ stored, Signed d V s.event)
    (index : Nat) :
    verifyRecords d V index prev records =
      .ok (.intact (index + stored.length) (chainFormat.tail prev stored)) := by
  induction hreads generalizing prev index with
  | nil => rfl
  | @cons s record stored records hs _ ih =>
    obtain ⟨hlinks, hrest⟩ := hvalid
    obtain ⟨hfirst, hsigned⟩ := List.forall_mem_cons.mp hsigned
    rw [verifyRecords, verifyRecord_of_reads hs hfirst hlinks]
    show verifyRecords d V (index + 1) (chainFormat.hash s) records = _
    rw [ih hrest hsigned (index + 1), List.length_cons, Nat.add_right_comm, Nat.add_assoc]
    rfl

theorem lastHashOf_of_reads {stored : List (Stored P)} {records : List (Members P.Float)}
    (hreads : List.Forall₂ Reads stored records) :
    lastHashOf records = chainFormat.tail zeroHash stored := by
  unfold lastHashOf
  generalize zeroHash = last
  induction hreads generalizing last with
  | nil => rfl
  | @cons s record stored records hs _ ih =>
    rw [List.foldl_cons, hs.recordHash]
    exact ih s.hash

/-! ### The file -/

/-- The rows of the file: the records with their items sorted. -/
def FileRows (stored : List (Stored P)) (ledger : Bytes) : Prop :=
  ∃ rows, List.Forall₂ (fun (s : Stored P) row => sortKeys P (.dict s.items) = some (.dict row))
      stored rows ∧ encode (rowsText P .spaced rows) = some ledger

/-- The texts of the record have no line separator. -/
def UnbrokenRecord (s : Stored P) : Prop :=
  Unbroken (.dict s.items)

theorem unbroken_of_sortKeys {v w : P.Obj} (h : sortKeys P v = some w) : Unbroken w ↔ Unbroken v :=
  forall_congr' fun _ => imp_congr_left (mem_chars_sortKeys P h)

theorem filterMap_members (rows : List (Members P.Float)) :
    (rows.map Value.dict).filterMap Value.members? = rows := by
  rw [List.filterMap_map]
  exact List.filterMap_some

theorem iterRecords_eq_ok {stored : List (Stored P)} {f : JsonFiles}
    (hfile : FileRows stored f.ledger) (hpayload : ∀ s ∈ stored, JsonPayload s.event) :
    (∀ records, f.iterRecords P = .ok records → ∀ s ∈ stored, UnbrokenRecord s) ∧
      ((∀ s ∈ stored, UnbrokenRecord s) → ∃ records, f.iterRecords P = .ok records ∧
        List.Forall₂ (fun (s : Stored P) row => sortKeys P (.dict s.items) = some (.dict row))
          stored records) := by
  obtain ⟨rows, hrows, hencode⟩ := hfile
  have himage : ∀ row ∈ rows, image P (.dict row) = .dict row := by
    intro row hrow
    obtain ⟨s, hs, hsort⟩ := forall₂_mem hrows hrow
    exact image_eq_self P ((plain_sortKeys_iff P hsort).mpr (plain_items (hpayload s hs)))
      (wf_sortKeys P hsort (wf_items (hpayload s hs)))
  constructor
  · intro records hrecords s hs
    obtain ⟨vs, hvs, -⟩ := bind_eq_ok.mp hrecords
    obtain ⟨hunbroken, -⟩ := (readRows_rowsText_eq_ok cleaning_strip hencode).mp hvs
    obtain ⟨row, hrow, hsort⟩ := forall₂_mem hrows.flip hs
    exact (unbroken_of_sortKeys hsort).mp (hunbroken row hrow)
  · intro hunbroken
    refine ⟨rows, ?_, hrows⟩
    have hread : readRows P strip f.ledger = .ok (rows.map Value.dict) := by
      refine (readRows_rowsText_eq_ok cleaning_strip hencode).mpr ⟨fun row hrow => ?_, ?_⟩
      · obtain ⟨s, hs, hsort⟩ := forall₂_mem hrows hrow
        exact (unbroken_of_sortKeys hsort).mpr (hunbroken s hs)
      · exact List.map_congr_left fun row hrow => (himage row hrow).symm
    unfold JsonFiles.iterRecords
    rw [hread]
    exact congrArg Except.ok (filterMap_members rows)

/-! ### The table -/

/-- The row of the table that a record is stored as. -/
def TableRowOf (s : Stored P) (r : TableRow) : Prop :=
  canonicalJson P (.dict s.event.asDict) = .ok r.eventJson ∧ r.prevHash = s.prevHash ∧
    r.recordHash = s.hash ∧ r.signature = s.event.signature ∧
    r.signingKeyId = s.event.signingKeyId ∧ r.signatureAlgorithm = s.event.signatureAlgorithm

theorem record_of_tableRow {s : Stored P} {r : TableRow} (hrow : TableRowOf s r)
    (hpayload : JsonPayload s.event) {row : Members P.Float}
    (hsort : sortKeys P (.dict s.items) = some (.dict row)) :
    ∃ record, r.record P = .ok record ∧ row.Perm record ∧ Reads s record := by
  obtain ⟨hjson, hprev, hhash, hsignature, hkey, halgorithm⟩ := hrow
  obtain ⟨event, payload, hevent, -⟩ := exists_sortKeys_event hpayload
  rw [canonicalJson_of_sortKeys hevent] at hjson
  have himage : image P (.dict event) = .dict event :=
    image_eq_self P ((plain_sortKeys_iff P hevent).mpr (plain_asDict hpayload))
      (wf_sortKeys P hevent (wf_asDict hpayload))
  let record : Members P.Float := [(.str (str "event"), .dict event),
    (.str (str "prev_hash"), .str s.prevHash), (.str (str "record_hash"), .str s.hash),
    (.str (str "signature"), .str s.event.signature),
    (.str (str "signing_key_id"), .str s.event.signingKeyId),
    (.str (str "signature_algorithm"), .str s.event.signatureAlgorithm)]
  -- the sorted items in the order in which the record is built
  obtain ⟨vs, hvs, -, hrow⟩ := (sortKeys_dict_eq_some P).mp hsort
  obtain rfl := Value.dict.inj hrow
  let items : Members P.Float := [(.str (str "event"), .dict event),
    (.str (str "prev_hash"), .str s.prevHash), (.str (str "signature"), .str s.event.signature),
    (.str (str "signing_key_id"), .str s.event.signingKeyId),
    (.str (str "signature_algorithm"), .str s.event.signatureAlgorithm),
    (.str (str "record_hash"), .str s.hash)]
  have hvs' : sortKeysMembers P s.items = some items := by
    rw [sortKeysMembers_eq_some P]
    exact .cons ⟨rfl, hevent⟩ (.cons ⟨rfl, rfl⟩ (.cons ⟨rfl, rfl⟩ (.cons ⟨rfl, rfl⟩
      (.cons ⟨rfl, rfl⟩ (.cons ⟨rfl, rfl⟩ .nil)))))
  rw [hvs] at hvs'
  obtain rfl := Option.some.inj hvs'
  have hlast : ∀ a b c h : Key P.Float × P.Obj, [a, b, c, h].Perm [h, a, b, c] := fun a b c h =>
    List.perm_append_singleton h [a, b, c]
  have hperm : (sortMembers P items).Perm record := by
    refine (perm_sortMembers P items).trans (.cons _ (.cons _ ?_))
    exact hlast _ _ _ _
  refine ⟨record, ?_, hperm, fun k => ?_⟩
  · unfold TableRow.record
    rw [← Except.ok.inj hjson, loads_dumps, himage, hprev, hhash, hsignature, hkey, halgorithm]
  · have hnodup : (record.map Prod.fst).Nodup :=
      (NamedItems.of_names [str "event", str "prev_hash", str "record_hash", str "signature",
        str "signing_key_id", str "signature_algorithm"] rfl (by decide) (by decide)).nodup
    rw [← get_of_perm hperm hnodup]
    exact reads_of_sortKeys hsort k

theorem iterTable_eq_ok {stored : List (Stored P)} {table : List TableRow}
    (htable : List.Forall₂ TableRowOf stored table) (hpayload : ∀ s ∈ stored, JsonPayload s.event)
    {rows : List (Members P.Float)}
    (hrows : List.Forall₂ (fun (s : Stored P) row => sortKeys P (.dict s.items) = some (.dict row))
      stored rows) :
    ∃ records, iterTable P table = .ok records ∧ List.Forall₂ List.Perm rows records ∧
      List.Forall₂ Reads stored records := by
  induction htable generalizing rows with
  | nil =>
    cases hrows
    exact ⟨[], rfl, .nil, .nil⟩
  | @cons s r stored table hs _ ih =>
    cases hrows with
    | @cons _ row _ rows hsort hrows =>
      obtain ⟨hfirst, hrest⟩ := List.forall_mem_cons.mp hpayload
      obtain ⟨record, hrecord, hperm, hreads⟩ := record_of_tableRow hs hfirst hsort
      obtain ⟨records, hrecords, hperms, hreadsAll⟩ := ih hrest hrows
      refine ⟨record :: records, ?_, .cons hperm hperms, .cons hreads hreadsAll⟩
      unfold iterTable at hrecords ⊢
      rw [List.mapM_cons, hrecord, hrecords]
      rfl

end Adaad.LedgerStore
