import Adaad.State.Equiv.Records

/-!
# The tail of the file

The sidecar may lag behind the ledger, or be missing.  The hash that is taken for the last one is
compared with the last line of the ledger, so it is the tail of the chain whatever the sidecar says
(`exists_resolveJsonTail`).
-/

namespace Adaad.LedgerStore

open Py AgmEvent

variable {P : Platform}

/-! ### The last line -/

theorem scanBack_append {l : Bytes} (h : (10 : UInt8) ∉ l) (r buffer : Bytes) :
    scanBack (l ++ r) buffer = scanBack r (l.reverse ++ buffer) := by
  induction l generalizing buffer with
  | nil => rfl
  | cons b l ih =>
    rw [List.mem_cons, not_or] at h
    rw [List.cons_append, scanBack, if_neg (Ne.symm h.1), ih h.2, List.reverse_cons,
      List.append_assoc, List.singleton_append]

theorem scanBack_lines {a d : Bytes} (hd : (10 : UInt8) ∉ d) (hne : d ≠ [])
    (ha : a = [] ∨ ∃ a', a = a' ++ [10]) : scanBack (a ++ (d ++ [10])).reverse [] = d := by
  have hd' : (10 : UInt8) ∉ d.reverse := fun h => hd (List.mem_reverse.mp h)
  rw [List.reverse_append, List.reverse_append, List.reverse_singleton, List.singleton_append,
    List.cons_append, scanBack, if_pos rfl, if_pos rfl, scanBack_append hd', List.reverse_reverse,
    List.append_nil]
  rcases ha with rfl | ⟨a', rfl⟩
  · rfl
  · rw [List.reverse_append, List.reverse_singleton, List.singleton_append, scanBack, if_pos rfl,
      if_neg hne]

theorem encode_line {t : Str} {b : Bytes} (h : encode (t ++ [lf]) = some b) :
    ∃ d, encode t = some d ∧ b = d ++ [10] := by
  obtain ⟨d, e, hd, he, rfl⟩ := encode_append_eq_some.mp h
  obtain rfl : [10] = e := Option.some.inj he
  exact ⟨d, hd, rfl⟩

theorem complete_rowsText {rows : List (Members P.Float)} {a : Bytes}
    (h : encode (rowsText P .spaced rows) = some a) : a = [] ∨ ∃ a', a = a' ++ [10] := by
  rcases List.eq_nil_or_concat rows with rfl | ⟨rs, row, rfl⟩
  · exact .inl (Option.some.inj h).symm
  · rw [List.concat_eq_append, rowsText_append, rowsText, rowsText, List.flatMap_singleton,
      ← List.append_assoc] at h
    obtain ⟨d, -, rfl⟩ := encode_line h
    exact .inr ⟨d, rfl⟩

theorem forall₂_concat_left {α β : Type} {R : α → β → Prop} {xs : List α} {x : α} {zs : List β}
    (h : List.Forall₂ R (xs ++ [x]) zs) : ∃ ys y, zs = ys ++ [y] ∧ R x y := by
  induction xs generalizing zs with
  | nil =>
    obtain ⟨y, ys, hxy, hrest, rfl⟩ := List.forall₂_cons_left_iff.mp h
    cases hrest
    exact ⟨[], y, rfl, hxy⟩
  | cons x' xs ih =>
    obtain ⟨y', ys', -, hrest, rfl⟩ := List.forall₂_cons_left_iff.mp h
    obtain ⟨ys, y, rfl, hxy⟩ := ih hrest
    exact ⟨y' :: ys, y, rfl, hxy⟩

theorem readLastRecordHashFast_eq {stored : List (Stored P)} {f : JsonFiles}
    (hfile : FileRows stored f.ledger) (hpayload : ∀ s ∈ stored, JsonPayload s.event) :
    f.readLastRecordHashFast P = some (chainFormat.tail zeroHash stored) := by
  obtain ⟨rows, hrows, hencode⟩ := hfile
  rcases List.eq_nil_or_concat stored with rfl | ⟨ss, s, rfl⟩
  · cases hrows
    obtain hnil : [] = f.ledger := Option.some.inj hencode
    unfold JsonFiles.readLastRecordHashFast
    rw [← hnil]
    rfl
  · rw [List.concat_eq_append] at hrows hpayload ⊢
    obtain ⟨rs, row, rfl, hsort⟩ := forall₂_concat_left hrows
    rw [rowsText_append] at hencode
    obtain ⟨a, b, ha, hb, hledger⟩ := encode_append_eq_some.mp hencode
    rw [rowsText, List.flatMap_singleton] at hb
    obtain ⟨line, hline, rfl⟩ := encode_line hb
    have hne : line ≠ [] := by
      rintro rfl
      have := decode_encode hline
      obtain ⟨t, ht⟩ := exists_dumps_dict (P := P) .spaced row
      rw [ht] at this
      exact absurd (Option.some.inj this) (List.cons_ne_nil _ _).symm
    have hscan : scanBack f.ledger.reverse [] = line := by
      rw [hledger]
      exact scanBack_lines (lf_notMem_dumps hline) hne (complete_rowsText ha)
    have himage : image P (.dict row) = .dict row := by
      have hjson := hpayload s (List.mem_append_right _ (List.mem_singleton_self s))
      exact image_eq_self P ((plain_sortKeys_iff P hsort).mpr (plain_items hjson))
        (wf_sortKeys P hsort (wf_items hjson))
    have hload : (decode line).bind (loads P) = some (.dict row) := by
      rw [decode_encode hline, Option.bind_some, loads_dumps, himage]
    unfold JsonFiles.readLastRecordHashFast
    rw [hscan]
    dsimp only
    rw [if_neg hne, hload]
    dsimp only
    rw [(reads_of_sortKeys hsort).recordHash, Chain.Format.tail_concat]
    rfl

/-! ### The sidecar -/

/-- The sidecar, where there is one, is a text. -/
def ReadableSidecar (f : JsonFiles) : Prop :=
  ∀ file, f.sidecar = some file → ∃ text, readText file = .ok text

theorem readTailSidecar_eq {f : JsonFiles} (h : ReadableSidecar f) :
    ∃ tail, f.readTailSidecar P = .ok tail := by
  unfold JsonFiles.readTailSidecar
  cases hsidecar : f.sidecar with
  | none => exact ⟨none, rfl⟩
  | some file =>
    obtain ⟨text, htext⟩ := h file hsidecar
    dsimp only
    rw [htext]
    exact ⟨_, rfl⟩

theorem writeTailSidecar_eq (f : JsonFiles) {hash : Str} (hascii : ∀ c ∈ hash, c < 128)
    (entries : Int) :
    ∃ f', f.writeTailSidecar P hash entries = .ok f' ∧ f'.ledger = f.ledger ∧ ReadableSidecar f' := by
  let items : Members P.Float :=
    [(.str (str "record_hash"), .str hash), (.str (str "entries"), .int entries)]
  have hplain : (Value.dict items).Plain := ⟨rfl, trivial, rfl, trivial, trivial⟩
  obtain ⟨w, hw⟩ := exists_sortKeys P hplain
  have hchars : ∀ c ∈ w.chars, c < 128 := by
    intro c hc
    have hmem := (mem_chars_sortKeys P hw).mp hc
    rw [Value.chars, mem_charsMembers] at hmem
    obtain ⟨m, hm, hmem⟩ := hmem
    simp only [items, List.mem_cons, List.not_mem_nil, or_false] at hm
    rcases hm with rfl | rfl
    · rcases hmem with hmem | hmem
      · exact (by decide : ∀ c ∈ str "record_hash", c < 128) c hmem
      · exact hascii c hmem
    · rcases hmem with hmem | hmem
      · exact (by decide : ∀ c ∈ str "entries", c < 128) c hmem
      · exact absurd hmem List.not_mem_nil
  have hencodable : Encodable (dumps P .compact w ++ [lf]) :=
    ((encodable_dumps_iff P .compact).mpr (encodable_of_ascii hchars)).append
      (encodable_of_ascii (by decide))
  obtain ⟨b, hb⟩ := exists_encode_iff.mpr hencodable
  refine ⟨{ f with sidecar := some b }, ?_, rfl, ?_⟩
  · unfold JsonFiles.writeTailSidecar
    rw [canonicalJson_of_sortKeys hw]
    show (writeText (dumps P .compact w ++ [lf]) >>= _) = _
    rw [writeText_of_encode hb]
    rfl
  · intro file hfile
    obtain rfl := Option.some.inj hfile
    unfold readText
    rw [decode_encode hb]
    exact ⟨_, rfl⟩

theorem ascii_tail {prev : Str} {stored : List (Stored P)} (hprev : ∀ c ∈ prev, c < 128)
    (h : chainFormat.Valid prev stored) : ∀ c ∈ chainFormat.tail prev stored, c < 128 := by
  induction stored generalizing prev with
  | nil => exact hprev
  | cons s stored ih =>
    obtain ⟨⟨-, hdigest⟩, hrest⟩ := h
    refine ih ?_ hrest
    cases hresult : recordHash s.event prev with
    | error x =>
      simp only [chainFormat, hresult, Except.toOption] at hdigest
      cases hdigest
    | ok hash =>
      simp only [chainFormat, hresult, Except.toOption] at hdigest
      obtain rfl : hash = s.hash := Option.some.inj hdigest
      exact (recordHash_eq_ok hresult).1

theorem ascii_zeroHash : ∀ c ∈ zeroHash, c < 128 := by
  decide

/-- The files of a chain of records whose texts have no line separator. -/
structure KeptFiles (stored : List (Stored P)) (f : JsonFiles) : Prop where
  file : FileRows stored f.ledger
  payload : ∀ s ∈ stored, JsonPayload s.event
  unbroken : ∀ s ∈ stored, UnbrokenRecord s
  chain : chainFormat.Valid zeroHash stored
  sidecar : ReadableSidecar f

theorem KeptFiles.of_ledger {stored : List (Stored P)} {f f' : JsonFiles} (h : KeptFiles stored f)
    (hledger : f'.ledger = f.ledger) (hsidecar : ReadableSidecar f') : KeptFiles stored f' :=
  ⟨hledger ▸ h.file, h.payload, h.unbroken, h.chain, hsidecar⟩

theorem KeptFiles.exists_rebuildTailSidecar {stored : List (Stored P)} {f : JsonFiles}
    (h : KeptFiles stored f) :
    ∃ entries f', f.rebuildTailSidecar P = .ok ((chainFormat.tail zeroHash stored, entries), f') ∧
      KeptFiles stored f' := by
  obtain ⟨records, hrecords, hrows⟩ := (iterRecords_eq_ok h.file h.payload).2 h.unbroken
  have hlast : lastHashOf records = chainFormat.tail zeroHash stored :=
    lastHashOf_of_reads (hrows.imp fun _ _ hsort => reads_of_sortKeys hsort)
  obtain ⟨f', hwrite, hledger, hsidecar⟩ := writeTailSidecar_eq (P := P) f
    (ascii_tail ascii_zeroHash h.chain) records.length
  refine ⟨records.length, f', ?_, h.of_ledger hledger hsidecar⟩
  unfold JsonFiles.rebuildTailSidecar
  rw [hrecords]
  show (f.writeTailSidecar P (lastHashOf records) records.length >>= _) = _
  rw [hlast, hwrite]
  rfl

theorem KeptFiles.exists_resolveJsonTail {stored : List (Stored P)} {f : JsonFiles}
    (h : KeptFiles stored f) :
    ∃ entries f', f.resolveJsonTail P = .ok ((chainFormat.tail zeroHash stored, entries), f') ∧
      KeptFiles stored f' := by
  obtain ⟨tail, htail⟩ := readTailSidecar_eq (P := P) h.sidecar
  unfold JsonFiles.resolveJsonTail
  rw [htail]
  cases tail with
  | none => exact h.exists_rebuildTailSidecar
  | some cached =>
    rw [readLastRecordHashFast_eq h.file h.payload]
    dsimp only [bind, Except.bind]
    by_cases hcached : cached.1 ≠ chainFormat.tail zeroHash stored
    · rw [if_pos hcached]
      exact h.exists_rebuildTailSidecar
    · rw [if_neg hcached]
      rw [not_not] at hcached
      exact ⟨cached.2, f, congrArg Except.ok (Prod.ext (Prod.ext hcached rfl) rfl), h⟩

end Adaad.LedgerStore

/-!
## Appending to either backend

What `append_event` does with a signed event, on the files and on the table of one chain of records:
both take the tail of the chain for the hash before, write the record where it has a hash, and
answer the same unless the table has that hash already.
-/

namespace Adaad.LedgerStore

open Py EventSigning AgmEvent

variable {P : Platform} {d : Digits P} {V : EventVerifier}

/-! ### Texts without separators -/

theorem isSpace_of_isSeparator {c : Nat} (h : isSeparator c = true) : isSpace c = true := by
  simp only [isSeparator, Bool.or_eq_true, beq_iff_eq] at h
  rcases h with (rfl | rfl) | rfl <;> decide

theorem demand_eq_ok {b : Bool} {message : Str} (h : demand b message = .ok ()) : b = true := by
  unfold demand at h
  split_ifs at h with hb
  exact hb

theorem unbroken_emittedAt {s : Str} (h : matchesEmittedAt d s = true) :
    Unbroken (.str s : P.Obj) := by
  obtain ⟨hlength, hall⟩ := (Bool.and_eq_true _ _).mp h
  have hfst : (s.zip emittedAtShape).map Prod.fst = s :=
    List.map_fst_zip (by rw [of_decide_eq_true hlength])
  intro c hc
  show isSeparator c = false
  have hc' : c ∈ (s.zip emittedAtShape).map Prod.fst := hfst.symm ▸ hc
  obtain ⟨m, hm, rfl⟩ := List.mem_map.mp hc'
  have hmatch := List.all_eq_true.mp hall m hm
  split_ifs at hmatch with hdigit
  · cases hseparator : isSeparator m.1 with
    | false => rfl
    | true =>
      have hlarge := le_of_isSeparator hseparator
      rw [Letters.digit, if_neg (by omega),
        d.decimal_space m.1 (isSpace_of_isSeparator hseparator)] at hmatch
      exact absurd hmatch (by decide)
  · have hshape : m.2 ∈ emittedAtShape := (List.of_mem_zip hm).2
    rw [of_decide_eq_true hmatch]
    exact isSeparator_of_lt ((by decide : ∀ c ∈ emittedAtShape, c < 128) m.2 hshape)

theorem unbroken_asDict {e : AGMEventEnvelope P} (h : validateEventEnvelope d e = .ok ())
    (hpayload : Unbroken (.dict e.payload)) :
    Unbroken (.dict e.asDict) ↔ Unbroken (.str e.signature : P.Obj) ∧
      Unbroken (.str e.signingKeyId : P.Obj) ∧ Unbroken (.str e.signatureAlgorithm : P.Obj) := by
  obtain ⟨_, hschema, h⟩ := bind_eq_ok.mp h
  obtain ⟨_, -, h⟩ := bind_eq_ok.mp h
  obtain ⟨_, hid, h⟩ := bind_eq_ok.mp h
  obtain ⟨_, htype, h⟩ := bind_eq_ok.mp h
  obtain ⟨_, htime, -⟩ := bind_eq_ok.mp h
  have hschema' : Unbroken (.str e.schemaVersion : P.Obj) := by
    rw [of_decide_eq_true (demand_eq_ok hschema)]
    exact unbroken_str_of_ascii (by decide)
  have hid' : Unbroken (.str e.eventId : P.Obj) := by
    obtain ⟨-, hhex⟩ := (Bool.and_eq_true _ _).mp (demand_eq_ok hid)
    exact unbroken_str_of_ascii (ascii_of_isHexDigit (List.all_eq_true.mp hhex))
  have htype' : Unbroken (.str e.eventType : P.Obj) := by
    rcases of_decide_eq_true (demand_eq_ok htype) with heq | heq
    · rw [heq]
      exact unbroken_str_of_ascii (by decide)
    · rw [heq]
      exact unbroken_str_of_ascii (by decide)
  have htime' : Unbroken (.str e.emittedAt : P.Obj) := unbroken_emittedAt (demand_eq_ok htime)
  rw [unbroken_dict_of_names [str "schema_version", str "event_id", str "event_type",
    str "emitted_at", str "payload", str "signature", str "signing_key_id",
    str "signature_algorithm"] rfl (by decide)]
  simp only [AGMEventEnvelope.asDict, List.forall_mem_cons, List.not_mem_nil, false_implies,
    implies_true, and_true]
  exact ⟨fun h => h.2.2.2.2.2, fun h => ⟨hschema', hid', htype', htime', hpayload, h⟩⟩

theorem unbrokenRecord_iff {s : Stored P} (h : validateEventEnvelope d s.event = .ok ())
    (hpayload : Unbroken (.dict s.event.payload)) (hprev : ∀ c ∈ s.prevHash, c < 128)
    (hhash : ∀ c ∈ s.hash, c < 128) :
    UnbrokenRecord s ↔ Unbroken (.str s.event.signature : P.Obj) ∧
      Unbroken (.str s.event.signingKeyId : P.Obj) ∧
      Unbroken (.str s.event.signatureAlgorithm : P.Obj) := by
  unfold UnbrokenRecord
  rw [unbroken_dict_of_names [str "event", str "prev_hash", str "signature", str "signing_key_id",
    str "signature_algorithm", str "record_hash"] rfl (by decide)]
  simp only [Stored.items, fullRecord, recordOf, List.cons_append, List.nil_append,
    List.forall_mem_cons, List.not_mem_nil, false_implies, implies_true, and_true]
  rw [unbroken_asDict h hpayload]
  constructor
  · exact fun hall => hall.1
  · exact fun hall => ⟨hall, unbroken_str_of_ascii hprev, hall.1, hall.2.1, hall.2.2,
      unbroken_str_of_ascii hhash⟩

/-! ### Calls -/

theorem exists_canonicalEventContent {e : AGMEventEnvelope P} (h : JsonPayload e) :
    ∃ content, canonicalEventContent e = .ok content := by
  have hplain : (Value.dict (e.asDict.take 5)).Plain := by
    have := plain_asDict h
    rw [Value.Plain, plainMembers_iff] at this ⊢
    exact fun m hm => this m (List.mem_of_mem_take hm)
  obtain ⟨w, hw⟩ := exists_sortKeys P hplain
  exact ⟨_, canonicalJson_of_sortKeys hw⟩

theorem Signed.acceptEvent_eq {e : AGMEventEnvelope P} (h : Signed d V e) :
    acceptEvent d V e = .ok () := by
  obtain ⟨content, hcontent⟩ := exists_canonicalEventContent h.payload
  unfold acceptEvent
  rw [h.valid]
  show (canonicalEventContent e >>= _) = _
  rw [hcontent]
  show (if V content e.bundle = true then _ else _) = _
  rw [if_pos (h.verified content hcontent)]
  rfl

section append

variable {stored : List (Stored P)} {e : AGMEventEnvelope P} {hash : Str}

theorem exists_writeLine {f : JsonFiles} (h : KeptFiles stored f) (hsigned : Signed d V e)
    (hhash : recordHash e (chainFormat.tail zeroHash stored) = .ok hash) :
    ∃ entries f', writeLine d V f e = .ok ((chainFormat.tail zeroHash stored, hash, entries), f') ∧
      FileRows (stored ++ [⟨e, chainFormat.tail zeroHash stored, hash⟩]) f'.ledger ∧
      ReadableSidecar f' := by
  let s : Stored P := ⟨e, chainFormat.tail zeroHash stored, hash⟩
  obtain ⟨entries, f', hresolve, hkept⟩ := h.exists_resolveJsonTail
  obtain ⟨hascii, hencodable⟩ := recordHash_eq_ok hhash
  obtain ⟨w, hw⟩ := exists_sortKeys P (plain_items (s := s) hsigned.payload)
  obtain ⟨row, rfl, -⟩ := exists_sortKeys_perm hw
  -- the record with its hash is encoded because the one without it is
  have hchars : Encodable (Value.dict row).chars := by
    intro c hc
    have hmem := (mem_chars_sortKeys P hw).mp hc
    rw [Value.chars, mem_charsMembers] at hmem
    obtain ⟨m, hm, hc⟩ := hmem
    rcases List.mem_append.mp hm with hm | hm
    · refine hencodable c ?_
      rw [Value.chars, mem_charsMembers]
      exact ⟨m, hm, hc⟩
    · rw [List.mem_singleton.mp hm] at hc
      refine encodable_of_ascii (fun c hc => ?_) c (List.mem_append.mpr hc)
      rcases List.mem_append.mp hc with hc | hc
      · exact (by decide : ∀ c ∈ str "record_hash", c < 128) c hc
      · exact hascii c hc
  obtain ⟨b, hb⟩ := exists_encode_iff.mpr
    (((encodable_dumps_iff P .spaced).mpr hchars).append (encodable_of_ascii (by decide)) :
      Encodable (dumps P .spaced (.dict row) ++ [lf]))
  have hline : dumpsSorted P .spaced (.dict (fullRecord e (chainFormat.tail zeroHash stored) hash)) =
      some (dumps P .spaced (.dict row)) := by
    unfold dumpsSorted
    rw [show sortKeys P (.dict (fullRecord e (chainFormat.tail zeroHash stored) hash)) = _ from hw]
    rfl
  refine ⟨entries, { f' with ledger := f'.ledger ++ b }, ?_, ?_, hkept.sidecar⟩
  · refine bind_eq_ok.mpr ⟨(), hsigned.acceptEvent_eq, bind_eq_ok.mpr ⟨_, hresolve,
      bind_eq_ok.mpr ⟨hash, hhash, bind_eq_ok.mpr ⟨b, ?_, rfl⟩⟩⟩⟩
    unfold ledgerLine
    rw [hline]
    exact writeText_of_encode hb
  · obtain ⟨rows, hrows, hencode⟩ := hkept.file
    refine ⟨rows ++ [row], List.rel_append hrows (.cons hw .nil), ?_⟩
    rw [rowsText_append]
    refine encode_append_eq_some.mpr ⟨f'.ledger, b, hencode, ?_, rfl⟩
    rw [rowsText, List.flatMap_singleton]
    exact hb

/-- What `append_event` answers where it appends. -/
def answer (e : AGMEventEnvelope P) (prevHash hash : Str) (stops : Bool) : Outcome P :=
  if stops then .stopped else .returned (fullRecord e prevHash hash)

theorem exists_appendJson {f : JsonFiles} (h : KeptFiles stored f) (hsigned : Signed d V e)
    (hhash : recordHash e (chainFormat.tail zeroHash stored) = .ok hash) (stops : Bool) :
    ∃ f', appendJson d V f e stops =
        (answer e (chainFormat.tail zeroHash stored) hash stops, f') ∧
      FileRows (stored ++ [⟨e, chainFormat.tail zeroHash stored, hash⟩]) f'.ledger ∧
      ReadableSidecar f' := by
  obtain ⟨entries, f', hwrite, hfile, hsidecar⟩ := exists_writeLine h hsigned hhash
  unfold appendJson answer
  rw [hwrite]
  dsimp only
  cases stops with
  | true => exact ⟨f', rfl, hfile, hsidecar⟩
  | false =>
    obtain ⟨f'', hsidecarWrite, hledger, hsidecar'⟩ :=
      writeTailSidecar_eq (P := P) f' (recordHash_eq_ok hhash).1 (entries + 1)
    refine ⟨f'', ?_, hledger ▸ hfile, hsidecar'⟩
    rw [if_neg Bool.false_ne_true, hsidecarWrite, if_neg Bool.false_ne_true]

theorem appendJson_of_error {f : JsonFiles} (h : KeptFiles stored f) (hsigned : Signed d V e)
    {x : Exc} (hhash : recordHash e (chainFormat.tail zeroHash stored) = .error x) (stops : Bool) :
    ∃ f', appendJson d V f e stops = (.raised (.raised x), f') ∧ KeptFiles stored f' := by
  obtain ⟨entries, f', hresolve, hkept⟩ := h.exists_resolveJsonTail
  have hwrite : writeLine d V f e = .error x := by
    unfold writeLine
    rw [hsigned.acceptEvent_eq]
    show (f.resolveJsonTail P >>= _) = _
    rw [hresolve]
    show (recordHash e (chainFormat.tail zeroHash stored) >>= _) = _
    rw [hhash]
    rfl
  have hresolved : resolved d V f e = f' := by
    unfold resolved
    rw [hsigned.acceptEvent_eq]
    dsimp only [bind, Except.bind]
    rw [hresolve]
  refine ⟨f', ?_, hkept⟩
  unfold appendJson
  rw [hwrite, hresolved]

theorem writeRow_eq {table : List TableRow} {f : JsonFiles} (h : KeptFiles stored f)
    (htable : List.Forall₂ TableRowOf stored table) (hsigned : Signed d V e) :
    writeRow d V table e =
      (raising (recordHash e (chainFormat.tail zeroHash stored)) >>= fun hash =>
        raising (canonicalJson P (.dict e.asDict)) >>= fun eventJson =>
          insertRow table ⟨eventJson, chainFormat.tail zeroHash stored, hash, e.signature,
              e.signingKeyId, e.signatureAlgorithm⟩ >>= fun table =>
            .ok ((chainFormat.tail zeroHash stored, hash), table)) := by
  obtain ⟨rows, -, hrows⟩ := (iterRecords_eq_ok h.file h.payload).2 h.unbroken
  obtain ⟨records, hrecords, -, hreads⟩ := iterTable_eq_ok htable h.payload hrows
  unfold writeRow
  rw [hsigned.acceptEvent_eq, hrecords]
  show (raising (recordHash e (lastHashOf records)) >>= _) = _
  rw [lastHashOf_of_reads hreads]
  rfl

theorem appendTable_of_error {table : List TableRow} {f : JsonFiles} (h : KeptFiles stored f)
    (htable : List.Forall₂ TableRowOf stored table) (hsigned : Signed d V e) {x : Exc}
    (hhash : recordHash e (chainFormat.tail zeroHash stored) = .error x) (stops : Bool) :
    appendTable d V table e stops = (.raised (.raised x), table) := by
  unfold appendTable
  rw [writeRow_eq h htable hsigned, hhash]
  rfl

theorem exists_appendTable {table : List TableRow} {f : JsonFiles} (h : KeptFiles stored f)
    (htable : List.Forall₂ TableRowOf stored table) (hsigned : Signed d V e)
    (hhash : recordHash e (chainFormat.tail zeroHash stored) = .ok hash)
    (hfresh : hash ∉ table.map TableRow.recordHash) (stops : Bool) :
    ∃ r, appendTable d V table e stops =
        (answer e (chainFormat.tail zeroHash stored) hash stops, table ++ [r]) ∧
      TableRowOf ⟨e, chainFormat.tail zeroHash stored, hash⟩ r := by
  obtain ⟨event, payload, hevent, -⟩ := exists_sortKeys_event hsigned.payload
  have hjson := canonicalJson_of_sortKeys hevent
  refine ⟨⟨_, chainFormat.tail zeroHash stored, hash, e.signature, e.signingKeyId,
    e.signatureAlgorithm⟩, ?_, hjson, rfl, rfl, rfl, rfl, rfl⟩
  unfold appendTable
  rw [writeRow_eq h htable hsigned, hhash, hjson]
  have hinsert : ∀ r : TableRow, r.recordHash = hash → insertRow table r = .ok (table ++ [r]) := by
    rintro r rfl
    exact if_neg hfresh
  dsimp only [bind, Except.bind, raising, Except.mapError]
  rw [hinsert _ rfl]
  rfl

theorem appendTable_of_repeated {table : List TableRow} {f : JsonFiles} (h : KeptFiles stored f)
    (htable : List.Forall₂ TableRowOf stored table) (hsigned : Signed d V e)
    (hhash : recordHash e (chainFormat.tail zeroHash stored) = .ok hash)
    (hrepeated : hash ∈ table.map TableRow.recordHash) (stops : Bool) :
    appendTable d V table e stops = (.raised .integrityError, table) := by
  obtain ⟨event, payload, hevent, -⟩ := exists_sortKeys_event hsigned.payload
  have hjson := canonicalJson_of_sortKeys hevent
  unfold appendTable
  rw [writeRow_eq h htable hsigned, hhash, hjson]
  have hinsert : ∀ r : TableRow, r.recordHash = hash → insertRow table r = .error .integrityError := by
    rintro r rfl
    exact if_pos hrepeated
  dsimp only [bind, Except.bind, raising, Except.mapError]
  rw [hinsert _ rfl]

end append

end Adaad.LedgerStore
