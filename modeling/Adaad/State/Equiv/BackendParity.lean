import Adaad.Run
import Adaad.State.Equiv.Appends

/-!
# The two backends agree

A run of `append_event` calls on a store with each backend, where the process may stop after a
ledger line is written.  What each call answers, what is read after it and what `verify_chain` finds
are the same for both, and are what was appended, exactly where no signature that is recorded has a
line separator in its texts and no record has the hash of another (`agree_iff_condition`).
-/

namespace Adaad.LedgerStore

open Py EventSigning AgmEvent

variable {P : Platform}

/-! ### Runs -/

/-- A call of `append_event` with a signed event, whose payload is an object of JSON without line
separators; the process may stop before the sidecar is written. -/
structure Call (d : Digits P) (V : EventVerifier) where
  event : AGMEventEnvelope P
  stops : Bool
  signed : Signed d V event
  unbroken : Unbroken (.dict event.payload)

variable (P) in
/-- A store with each backend, the events that were appended, and what the calls have answered. -/
structure World where
  json : JsonFiles
  table : List TableRow
  appended : List (AGMEventEnvelope P)
  answers : List (Outcome P × Outcome P)

def World.fresh : World P := ⟨.fresh, [], [], []⟩

/-- The call appended the event, unless it raised. -/
def Outcome.appends : Outcome P → Bool
  | .raised _ => false
  | _ => true

def World.step (d : Digits P) (V : EventVerifier) (w : World P) (c : Call d V) : World P :=
  let j := appendJson d V w.json c.event c.stops
  let t := appendTable d V w.table c.event c.stops
  { json := j.2
    table := t.2
    appended := if j.1.appends then w.appended ++ [c.event] else w.appended
    answers := w.answers ++ [(j.1, t.1)] }

/-- The two stores are the same to whoever calls them, and have what was appended. -/
structure Agree (d : Digits P) (V : EventVerifier) (w : World P) : Prop where
  verified : ∃ tip files, verifyJson d (some V) w.json = .ok (.intact w.appended.length tip, files) ∧
    verifyTable d (some V) w.table = .ok (.intact w.appended.length tip)
  records : ∃ rows records, w.json.iterRecords P = .ok rows ∧ iterTable P w.table = .ok records ∧
    List.Forall₂ List.Perm rows records ∧
    List.Forall₂ (fun (e : AGMEventEnvelope P) row =>
      get row (str "event") = sortKeys P (.dict e.asDict)) w.appended rows
  answers : ∀ a ∈ w.answers, a.1 = a.2

def tipHash (table : List TableRow) : Str :=
  (table.getLast?.map TableRow.recordHash).getD zeroHash

/-- Where the record of the event has a hash, no text of its signature has a line separator, and no
row has this hash. -/
def Condition (w : World P) (e : AGMEventEnvelope P) : Prop :=
  ∀ hash, recordHash e (tipHash w.table) = .ok hash →
    (Unbroken (.str e.signature : P.Obj) ∧ Unbroken (.str e.signingKeyId : P.Obj) ∧
      Unbroken (.str e.signatureAlgorithm : P.Obj)) ∧
    hash ∉ w.table.map TableRow.recordHash

section run

variable {d : Digits P} {V : EventVerifier}

variable (d V) in
/-- Both stores have the chain of the records. -/
structure Kept (stored : List (Stored P)) (w : World P) : Prop where
  files : KeptFiles stored w.json
  table : List.Forall₂ TableRowOf stored w.table
  signed : ∀ s ∈ stored, Signed d V s.event
  appended : w.appended = stored.map Stored.event
  answers : ∀ a ∈ w.answers, a.1 = a.2

theorem kept_fresh : Kept d V [] (World.fresh : World P) where
  files :=
    { file := ⟨[], .nil, rfl⟩
      payload := List.forall_mem_nil _
      unbroken := List.forall_mem_nil _
      chain := trivial
      sidecar := fun _ h => by cases h }
  table := .nil
  signed := List.forall_mem_nil _
  appended := rfl
  answers := List.forall_mem_nil _

namespace Kept

variable {stored : List (Stored P)} {w : World P}

theorem tipHash_eq (h : Kept d V stored w) :
    tipHash w.table = chainFormat.tail zeroHash stored := by
  have htable := h.table
  rcases List.eq_nil_or_concat stored with rfl | ⟨ss, s, rfl⟩
  · unfold tipHash
    rw [List.forall₂_nil_left_iff.mp htable]
    rfl
  · rw [List.concat_eq_append] at htable ⊢
    obtain ⟨rs, r, heq, hrow⟩ := forall₂_concat_left htable
    unfold tipHash
    rw [heq, List.getLast?_append, List.getLast?_singleton, Option.some_or, Option.map_some,
      Option.getD_some, Chain.Format.tail_concat]
    exact hrow.2.2.1

theorem agree (h : Kept d V stored w) : Agree d V w := by
  obtain ⟨rows, hrows, hsorted⟩ := (iterRecords_eq_ok h.files.file h.files.payload).2 h.files.unbroken
  obtain ⟨records, hrecords, hperm, hreads⟩ := iterTable_eq_ok h.table h.files.payload hsorted
  have hreadsRows : List.Forall₂ Reads stored rows := hsorted.imp fun _ _ hs => reads_of_sortKeys hs
  have hlength : w.appended.length = 0 + stored.length := by
    rw [h.appended, List.length_map, Nat.zero_add]
  obtain ⟨files, hwrite, -, -⟩ := writeTailSidecar_eq (P := P) w.json
    (ascii_tail ascii_zeroHash h.files.chain) rows.length
  refine ⟨⟨chainFormat.tail zeroHash stored, files, ?_, ?_⟩,
    ⟨rows, records, hrows, hrecords, hperm, ?_⟩, h.answers⟩
  · unfold verifyJson
    dsimp only
    rw [hrows]
    show (verifyRecords d V 0 zeroHash rows >>= _) = _
    rw [verifyRecords_of_reads hreadsRows h.files.chain h.signed, hlength]
    show (w.json.writeTailSidecar P (chainFormat.tail zeroHash stored) rows.length >>= _) = _
    rw [hwrite]
    rfl
  · unfold verifyTable
    dsimp only
    rw [hrecords, hlength]
    exact verifyRecords_of_reads hreads h.files.chain h.signed 0
  · rw [h.appended, List.forall₂_map_left_iff]
    exact hreadsRows.imp fun _ _ hs => hs.event

variable {c : Call d V}

theorem step_of_error (h : Kept d V stored w) {x : Exc}
    (hhash : recordHash c.event (chainFormat.tail zeroHash stored) = .error x) :
    Kept d V stored (w.step d V c) := by
  obtain ⟨files, hjson, hfiles⟩ := appendJson_of_error h.files c.signed hhash c.stops
  have htable := appendTable_of_error h.files h.table c.signed hhash c.stops
  unfold World.step
  rw [hjson, htable]
  exact ⟨hfiles, h.table, h.signed, h.appended,
    List.forall_mem_append.mpr ⟨h.answers, List.forall_mem_singleton.mpr rfl⟩⟩

theorem answer_appends (e : AGMEventEnvelope P) (prevHash hash : Str) (stops : Bool) :
    (answer e prevHash hash stops).appends = true := by
  cases stops <;> rfl

theorem chain_concat (h : Kept d V stored w) {hash : Str}
    (hhash : recordHash c.event (chainFormat.tail zeroHash stored) = .ok hash) :
    chainFormat.Valid zeroHash
      (stored ++ [⟨c.event, chainFormat.tail zeroHash stored, hash⟩]) := by
  refine (Chain.Format.valid_concat _).mpr ⟨h.files.chain, rfl, ?_⟩
  show (recordHash c.event (chainFormat.tail zeroHash stored)).toOption = some hash
  rw [hhash]
  rfl

theorem unbroken_concat (h : Kept d V stored w) {hash : Str}
    (hhash : recordHash c.event (chainFormat.tail zeroHash stored) = .ok hash) :
    UnbrokenRecord ⟨c.event, chainFormat.tail zeroHash stored, hash⟩ ↔
      Unbroken (.str c.event.signature : P.Obj) ∧ Unbroken (.str c.event.signingKeyId : P.Obj) ∧
      Unbroken (.str c.event.signatureAlgorithm : P.Obj) :=
  unbrokenRecord_iff c.signed.valid c.unbroken (ascii_tail ascii_zeroHash h.files.chain)
    (recordHash_eq_ok hhash).1

theorem step (h : Kept d V stored w) (hcondition : Condition w c.event) :
    ∃ stored', Kept d V stored' (w.step d V c) := by
  cases hhash : recordHash c.event (chainFormat.tail zeroHash stored) with
  | error x => exact ⟨stored, h.step_of_error hhash⟩
  | ok hash =>
    obtain ⟨htexts, hfresh⟩ := hcondition hash (h.tipHash_eq.symm ▸ hhash)
    obtain ⟨files, hjson, hfile, hsidecar⟩ := exists_appendJson h.files c.signed hhash c.stops
    obtain ⟨r, htable, hrow⟩ :=
      exists_appendTable h.files h.table c.signed hhash hfresh c.stops
    refine ⟨stored ++ [⟨c.event, chainFormat.tail zeroHash stored, hash⟩], ?_⟩
    unfold World.step
    rw [hjson, htable]
    refine ⟨⟨hfile, ?_, ?_, h.chain_concat hhash, hsidecar⟩,
      List.rel_append h.table (.cons hrow .nil), ?_, ?_, ?_⟩
    · exact List.forall_mem_append.mpr
        ⟨h.files.payload, List.forall_mem_singleton.mpr c.signed.payload⟩
    · exact List.forall_mem_append.mpr ⟨h.files.unbroken,
        List.forall_mem_singleton.mpr ((h.unbroken_concat hhash).mpr htexts)⟩
    · exact List.forall_mem_append.mpr ⟨h.signed, List.forall_mem_singleton.mpr c.signed⟩
    · show (if (answer c.event _ hash c.stops).appends = true then _ else _) = _
      rw [if_pos (answer_appends _ _ _ _), h.appended, List.map_append, List.map_singleton]
    · exact List.forall_mem_append.mpr ⟨h.answers, List.forall_mem_singleton.mpr rfl⟩

theorem condition_of_agree (h : Kept d V stored w) (hagree : Agree d V (w.step d V c)) :
    Condition w c.event := by
  intro hash hhash
  rw [h.tipHash_eq] at hhash
  obtain ⟨files, hjson, hfile, -⟩ := exists_appendJson h.files c.signed hhash c.stops
  have hfiles : (w.step d V c).json = files := congrArg Prod.snd hjson
  have hpayload : ∀ s ∈ stored ++ [⟨c.event, chainFormat.tail zeroHash stored, hash⟩],
      JsonPayload (Stored.event s) :=
    List.forall_mem_append.mpr ⟨h.files.payload, List.forall_mem_singleton.mpr c.signed.payload⟩
  constructor
  · obtain ⟨rows, -, hrows, -⟩ := hagree.records
    rw [hfiles] at hrows
    have hunbroken := (iterRecords_eq_ok hfile hpayload).1 rows hrows
      ⟨c.event, chainFormat.tail zeroHash stored, hash⟩ (by simp)
    exact (h.unbroken_concat hhash).mp hunbroken
  · intro hrepeated
    have htable := appendTable_of_repeated h.files h.table c.signed hhash hrepeated c.stops
    have hanswers := hagree.answers
      (answer c.event (chainFormat.tail zeroHash stored) hash c.stops, .raised .integrityError) (by
        show _ ∈ w.answers ++ [((appendJson d V w.json c.event c.stops).1,
          (appendTable d V w.table c.event c.stops).1)]
        rw [hjson, htable]
        exact List.mem_append_right _ (List.mem_singleton_self _))
    have happends := answer_appends c.event (chainFormat.tail zeroHash stored) hash c.stops
    rw [show answer c.event _ hash c.stops = .raised .integrityError from hanswers] at happends
    cases happends

end Kept

end run

/-- The two stores agree after every call of a run exactly where all its calls meet the
condition. -/
theorem agree_iff_condition (d : Digits P) (V : EventVerifier) (calls : List (Call d V)) :
    Run.Always (World.step d V) (Agree d V) .fresh calls ↔
      Run.Meets (World.step d V) (fun w c => Condition w c.event) .fresh calls := by
  refine Run.always_iff_meets_of_kept (J := fun w => ∃ stored, Kept d V stored w) ?_ ?_ ?_
    ⟨[], kept_fresh⟩
  · rintro w ⟨stored, h⟩
    exact h.agree
  · rintro w c ⟨stored, h⟩ hcondition
    exact h.step hcondition
  · rintro w c ⟨stored, h⟩ hagree
    exact h.condition_of_agree hagree

/-! ### A key id with a line separator -/

def referenceDigits : Digits reference where
  letters := referenceLetters
  decimal_space _ _ := rfl

def referenceVerifier : EventVerifier := fun _ b => b.signature = str "sig:1"

/-- An event that is signed with a key whose id has a line separator. -/
def separatedEvent : AGMEventEnvelope reference where
  schemaVersion := str "1.0"
  eventId := List.replicate 31 48 ++ [49]
  eventType := str "scoring_event"
  emittedAt := str "2026-01-01T00:00:00Z"
  payload := [(.str (str "mutation_id"), .str (str "m1"))]
  signature := str "sig:1"
  signingKeyId := str "key" ++ [0x2028]
  signatureAlgorithm := str "hmac-sha256"

def separatedCall : Call referenceDigits referenceVerifier where
  event := separatedEvent
  stops := false
  signed :=
    { valid := by decide +kernel
      verified := fun _ _ => decide_eq_true rfl
      payload := ⟨⟨rfl, trivial, trivial⟩, List.nodup_singleton _, trivial, trivial⟩ }
  unbroken := by
    refine (unbroken_dict_of_names [str "mutation_id"] rfl (by decide)).mpr ?_
    exact List.forall_mem_singleton.mpr (unbroken_str_of_ascii (by decide))

/-- After it is appended the file cannot be read. -/
theorem not_agree_separated :
    ¬ Run.Always (World.step referenceDigits referenceVerifier)
      (Agree referenceDigits referenceVerifier) .fresh [separatedCall] := by
  rintro ⟨-, hagree⟩
  have hcondition := kept_fresh.condition_of_agree hagree
  obtain ⟨hash, hhash⟩ := exists_of_isOk
    (by decide +kernel : (recordHash separatedEvent zeroHash).isOk = true)
  have hkey := (hcondition hash hhash).1.2.1 0x2028 (by decide)
  exact absurd hkey (by decide)

end Adaad.LedgerStore
