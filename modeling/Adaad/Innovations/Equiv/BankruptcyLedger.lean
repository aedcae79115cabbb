import Adaad.Chain
import Adaad.Innovations.GovernanceBankruptcy

/-!
# The ledger of bankruptcies

Every call keeps the protocol to what its ledger says (`Written`): the chain is valid, and a new
protocol on the ledger has the same active declaration and the same discharged epochs, where every
entry is of a named epoch.
-/

namespace Adaad.Innovations.Bankruptcy

open Py

variable {P : Platform} {fmt : Formats P}

/-! ### Declarations -/

/-- A declaration that is read as it was written. -/
structure BankruptcyDeclaration.Stay (decl : BankruptcyDeclaration P) : Prop where
  epochId : readAscii decl.epochId = decl.epochId
  reason : readAscii decl.reason = decl.reason
  status : readAscii decl.status = decl.status
  prevDigest : readAscii decl.prevDigest = decl.prevDigest
  declarationDigest : ∀ c ∈ decl.declarationDigest, c < 128
  digested : decl.declarationDigest ≠ []

theorem spec_computeDigest {decl : BankruptcyDeclaration P} {digest : Str}
    (h : computeDigest fmt decl = .ok digest) :
    (∃ debt, fmt.fixed 6 decl.debtScore = some debt) ∧ Encodable decl.epochId ∧
      (∀ c ∈ digest, c < 128) ∧ digest ≠ [] := by
  unfold computeDigest at h
  cases hdebt : fmt.fixed 6 decl.debtScore with
  | none =>
    rw [hdebt] at h
    cases h
  | some debt =>
    rw [hdebt] at h
    dsimp only at h
    cases hraw : encode (decl.epochId ++ 58 :: (debt ++ 58 :: (decl.status ++ 58 :: decl.prevDigest)))
      with
    | none =>
      rw [hraw] at h
      cases h
    | some raw =>
      rw [hraw] at h
      obtain rfl := Except.ok.inj h
      obtain ⟨b, b', hepoch, -⟩ := encode_append_eq_some.mp hraw
      exact ⟨⟨debt, rfl⟩, exists_encode_iff.mp ⟨b, hepoch⟩, ascii_prefixed_sha256 P raw,
        List.cons_ne_nil _ _⟩

theorem exists_computeDigest (decl : BankruptcyDeclaration P)
    (hdebt : ∃ debt, fmt.fixed 6 decl.debtScore = some debt) (hid : Encodable decl.epochId)
    (hstatus : ∀ c ∈ decl.status, c < 128) (hprev : ∀ c ∈ decl.prevDigest, c < 128) :
    ∃ digest, computeDigest fmt decl = .ok digest := by
  obtain ⟨debt, hdebt⟩ := hdebt
  have hrest : ∀ c ∈ 58 :: (debt ++ 58 :: (decl.status ++ 58 :: decl.prevDigest)), c < 128 := by
    refine List.forall_mem_cons.mpr ⟨by decide, List.forall_mem_append.mpr
      ⟨fmt.ascii_fixed 6 decl.debtScore debt hdebt, List.forall_mem_cons.mpr ⟨by decide, ?_⟩⟩⟩
    exact List.forall_mem_append.mpr ⟨hstatus, List.forall_mem_cons.mpr ⟨by decide, hprev⟩⟩
  obtain ⟨raw, hraw⟩ := exists_encode_iff.mpr (hid.append (encodable_of_ascii hrest))
  refine ⟨str "sha256:" ++ P.sha256 raw, ?_⟩
  unfold computeDigest
  rw [hdebt]
  dsimp only
  rw [hraw]

namespace BankruptcyDeclaration

variable {decl : BankruptcyDeclaration P}

theorem namedItems_record (decl : BankruptcyDeclaration P) : NamedItems decl.record :=
  NamedItems.of_names fieldNames rfl (by decide) (by decide)

theorem Stay.readBack_record (h : decl.Stay) : readBack P decl.record = decl.record := by
  refine readBack_eq_self ?_
  simp only [record, List.forall_mem_cons]
  exact ⟨Value.stays_str h.epochId, Number.stays_toObj _, Number.stays_toObj _,
    Value.stays_str h.reason, Number.stays_toObj _, Value.stays_int _, Value.stays_str h.status,
    Value.stays_str h.prevDigest, Value.stays_str_of_ascii h.declarationDigest,
    List.forall_mem_nil _⟩

theorem get_record {k : Str} {v : P.Obj} (hm : (.str k, v) ∈ decl.record) :
    get decl.record k = some v :=
  get_eq_some_of_mem decl.namedItems_record.nodup hm

theorem argumentAt_record {α : Type} (of : P.Obj → Except LoadError α) {k : Str} {v : P.Obj} {a : α}
    (hm : (.str k, v) ∈ decl.record) (hof : of v = .ok a) (default : Option α) :
    argumentAt of decl.record k default = .ok a := by
  unfold argumentAt
  rw [get_record hm]
  dsimp only
  rw [hof]
  rfl

theorem numberOf_toObj (n : Number P) : numberOf n.toObj = .ok n := by
  cases n <;> rfl

theorem declarationOf_record (h : decl.declarationDigest ≠ []) :
    declarationOf fmt decl.record = .ok decl := by
  have htext : ∀ {k s : Str} (default : Option Str), (Key.str k, Value.str s) ∈ decl.record →
      argumentAt textOf decl.record k default = .ok s :=
    fun default hm => argumentAt_record textOf hm rfl default
  have hnumber : ∀ {k : Str} {n : Number P} (default : Option (Number P)),
      (Key.str k, n.toObj) ∈ decl.record → argumentAt numberOf decl.record k default = .ok n :=
    fun default hm => argumentAt_record numberOf hm (numberOf_toObj _) default
  have hint : argumentAt intOf decl.record (str "required_clean_epochs")
      (some remediationCleanStreak) = .ok decl.requiredCleanEpochs :=
    argumentAt_record intOf (v := .int decl.requiredCleanEpochs) (by simp [record]) rfl _
  have hknown : ¬ ∃ m ∈ decl.record, ∀ name ∈ fieldNames, m.1.is name = false := by
    rintro ⟨m, hm, hforeign⟩
    obtain ⟨k, hk, -⟩ := decl.namedItems_record.ascii m hm
    have hmem : Key.str k ∈ fieldNames.map (Key.str (F := P.Float)) := by
      rw [← hk]
      exact List.mem_map_of_mem hm
    obtain ⟨name, hname, heq⟩ := List.mem_map.mp hmem
    have hfalse := hforeign name hname
    rw [hk, ← heq, Key.is_iff.mpr rfl] at hfalse
    cases hfalse
  unfold declarationOf
  rw [if_neg hknown, htext none (k := str "epoch_id") (s := decl.epochId) (by simp [record]),
    hnumber none (k := str "debt_score") (n := decl.debtScore) (by simp [record]),
    hnumber none (k := str "health_score") (n := decl.healthScore) (by simp [record]),
    htext none (k := str "reason") (s := decl.reason) (by simp [record]),
    hnumber (some (remediationHealthTarget P)) (k := str "remediation_target_health")
      (n := decl.remediationTargetHealth) (by simp [record]), hint,
    htext (some Status.active.value) (k := str "status") (s := decl.status) (by simp [record]),
    htext (some genesis) (k := str "prev_digest") (s := decl.prevDigest) (by simp [record]),
    htext (some []) (k := str "declaration_digest") (s := decl.declarationDigest) (by simp [record])]
  exact if_neg h

end BankruptcyDeclaration

/-! ### The chain -/

/-- Declarations are chained by their digests. -/
def ledgerFormat (fmt : Formats P) : Chain.Format Str (BankruptcyDeclaration P) where
  prev := BankruptcyDeclaration.prevDigest
  hash := BankruptcyDeclaration.declarationDigest
  digest _ decl := (computeDigest fmt decl).toOption

theorem links_iff {prev : Str} {decl : BankruptcyDeclaration P} :
    (ledgerFormat fmt).Links prev decl ↔
      decl.prevDigest = prev ∧ computeDigest fmt decl = .ok decl.declarationDigest := by
  refine and_congr_right fun _ => ?_
  show (computeDigest fmt decl).toOption = some decl.declarationDigest ↔ _
  cases computeDigest fmt decl with
  | error e => exact iff_of_false (fun h => by cases h) fun h => by cases h
  | ok digest => exact ⟨fun h => congrArg Except.ok (Option.some.inj h), fun h =>
      congrArg some (Except.ok.inj h)⟩

theorem computeDigest_of_valid {events : List (BankruptcyDeclaration P)} {prev : Str}
    (h : (ledgerFormat fmt).Valid prev events) {decl : BankruptcyDeclaration P} (hm : decl ∈ events) :
    computeDigest fmt decl = .ok decl.declarationDigest := by
  induction events generalizing prev with
  | nil => exact absurd hm List.not_mem_nil
  | cons decl' events ih =>
    rcases List.mem_cons.mp hm with rfl | hm
    · exact (links_iff.mp h.1).2
    · exact ih h.2 hm

theorem verifyEntry_logLine {decl : BankruptcyDeclaration P} {prev : Str} (h : decl.Stay)
    (hlink : (ledgerFormat fmt).Links prev decl) (entry : Nat) :
    verifyEntry fmt entry prev (logLine P decl.record) = .ok decl.declarationDigest := by
  obtain ⟨hprev, hdigest⟩ := links_iff.mp hlink
  have hget : get decl.record (str "prev_digest") = some (.str decl.prevDigest) :=
    BankruptcyDeclaration.get_record (by simp [BankruptcyDeclaration.record])
  have hstored : argumentAt textOf decl.record (str "declaration_digest") (some []) =
      .ok decl.declarationDigest :=
    BankruptcyDeclaration.argumentAt_record textOf (v := .str decl.declarationDigest)
      (by simp [BankruptcyDeclaration.record]) rfl _
  have hmatch : isText (P := P) prev (.str decl.prevDigest) = true := decide_eq_true hprev
  have hascii : ¬ ∃ c ∈ decl.declarationDigest, 128 ≤ c := by
    rintro ⟨c, hc, hle⟩
    exact absurd (h.declarationDigest c hc) (Nat.not_lt.mpr hle)
  unfold verifyEntry
  rw [loads_logLine decl.namedItems_record, h.readBack_record]
  dsimp only
  rw [hget, Option.getD_some, hmatch, if_neg Bool.noConfusion,
    BankruptcyDeclaration.declarationOf_record h.digested]
  dsimp only
  rw [hstored, hdigest]
  dsimp only
  rw [if_neg hascii, if_neg (not_not.mpr rfl)]

theorem verifyFrom_of_valid {events : List (BankruptcyDeclaration P)} {prev : Str}
    (hstays : ∀ decl ∈ events, decl.Stay) (h : (ledgerFormat fmt).Valid prev events) (entry : Nat) :
    verifyFrom fmt entry prev ((events.map BankruptcyDeclaration.record).map (logLine P)) =
      .valid := by
  induction events generalizing prev entry with
  | nil => rfl
  | cons decl events ih =>
    obtain ⟨hdecl, hrest⟩ := List.forall_mem_cons.mp hstays
    rw [List.map_cons, List.map_cons, verifyFrom, strip_logLine, if_neg (logLine_ne_nil _),
      verifyEntry_logLine hdecl h.1]
    exact ih hrest h.2 (entry + 1)

/-! ### The latest entries -/

def latest (events : List (BankruptcyDeclaration P)) : List (Str × BankruptcyDeclaration P) :=
  Assoc.ofItems (events.map fun decl => (decl.epochId, decl))

variable {events : List (BankruptcyDeclaration P)} {decl : BankruptcyDeclaration P}

theorem latest_concat : latest (events ++ [decl]) = Assoc.set (latest events) decl.epochId decl := by
  unfold latest
  rw [List.map_append, List.map_singleton, Assoc.ofItems_concat]

theorem lookup_latest_concat (id : Str) : (latest (events ++ [decl])).lookup id =
    if id = decl.epochId then some decl else (latest events).lookup id := by
  rw [latest_concat, Assoc.lookup_set]

theorem epochId_of_lookup {id : Str} (h : (latest events).lookup id = some decl) :
    decl.epochId = id := by
  have hmem := Assoc.mem_of_mem_ofItems (Assoc.mem_of_lookup h)
  obtain ⟨decl', -, heq⟩ := List.mem_map.mp hmem
  obtain ⟨rfl, rfl⟩ := Prod.mk.inj heq
  rfl

theorem mem_of_lookup_latest {id : Str} (h : (latest events).lookup id = some decl) :
    decl ∈ events := by
  obtain ⟨decl', hdecl, heq⟩ := List.mem_map.mp
    (Assoc.mem_of_mem_ofItems (Assoc.mem_of_lookup h))
  exact (Prod.mk.inj heq).2 ▸ hdecl

theorem mem_latest_iff {m : Str × BankruptcyDeclaration P} :
    m ∈ latest events ↔ (latest events).lookup m.1 = some m.2 :=
  (Assoc.lookup_eq_some_iff (Assoc.nodup_keys_ofItems _)).symm

theorem loadLine_logLine (h : decl.Stay) (hnamed : decl.epochId ≠ [])
    (entries : List (Str × BankruptcyDeclaration P)) (last : Str) :
    loadLine (Assoc.mapValues BankruptcyDeclaration.record entries, last)
        (logLine P decl.record) =
      (Assoc.mapValues BankruptcyDeclaration.record (Assoc.set entries decl.epochId decl),
        decl.declarationDigest) := by
  have hid : get decl.record (str "epoch_id") = some (.str decl.epochId) :=
    BankruptcyDeclaration.get_record (by simp [BankruptcyDeclaration.record])
  have hdigest : get decl.record (str "declaration_digest") = some (.str decl.declarationDigest) :=
    BankruptcyDeclaration.get_record (by simp [BankruptcyDeclaration.record])
  unfold loadLine
  rw [strip_logLine, if_neg (logLine_ne_nil _), loads_logLine decl.namedItems_record,
    h.readBack_record]
  dsimp only
  rw [hid, hdigest]
  dsimp only [Option.getD_some]
  rw [if_neg hnamed, if_neg h.digested, Assoc.set_mapValues]

variable (fmt) in
theorem foldl_loadLine (hstays : ∀ decl ∈ events, decl.Stay)
    (hnamed : ∀ decl ∈ events, decl.epochId ≠ []) :
    ((events.map BankruptcyDeclaration.record).map (logLine P)).foldl loadLine ([], genesis) =
      (Assoc.mapValues BankruptcyDeclaration.record (latest events),
        (ledgerFormat fmt).tail genesis events) := by
  induction events using List.reverseRecOn with
  | nil => rfl
  | append_singleton events decl ih =>
    obtain ⟨hstays, hdecl⟩ := List.forall_mem_append.mp hstays
    obtain ⟨hnamed, hname⟩ := List.forall_mem_append.mp hnamed
    rw [List.map_append, List.map_append, List.foldl_append, ih hstays hnamed,
      Chain.Format.tail_concat, latest_concat, List.map_singleton, List.map_singleton,
      List.foldl_cons, List.foldl_nil, loadLine_logLine (hdecl decl (List.mem_singleton_self _))
        (hname decl (List.mem_singleton_self _))]
    rfl

theorem settle_discharged (h : decl.status = Status.discharged.value) (id : Str)
    (s : Finset Str × Option (BankruptcyDeclaration P)) :
    settle fmt s (id, decl.record) = (insert id s.1, s.2) := by
  have hget : get decl.record (str "status") = some (.str decl.status) :=
    BankruptcyDeclaration.get_record (by simp [BankruptcyDeclaration.record])
  unfold settle
  rw [hget]
  dsimp only
  rw [if_pos h]

theorem settle_active (h : decl.status = Status.active.value) (hd : decl.declarationDigest ≠ [])
    (id : Str) (s : Finset Str × Option (BankruptcyDeclaration P)) :
    settle fmt s (id, decl.record) = (s.1, some decl) := by
  have hget : get decl.record (str "status") = some (.str decl.status) :=
    BankruptcyDeclaration.get_record (by simp [BankruptcyDeclaration.record])
  have hne : Status.active.value ≠ Status.discharged.value := by decide
  unfold settle
  rw [hget, h]
  dsimp only
  rw [if_neg hne, if_pos (.inl rfl), BankruptcyDeclaration.declarationOf_record hd]

variable (fmt) in
theorem foldl_settle (entries : List (Str × BankruptcyDeclaration P))
    {opened : Option (BankruptcyDeclaration P)}
    (hd : ∀ m ∈ entries, m.2.declarationDigest ≠ [])
    (h : ∀ m ∈ entries, m.2.status = Status.discharged.value ∨
      m.2.status = Status.active.value ∧ opened = some m.2)
    (s : Finset Str × Option (BankruptcyDeclaration P))
    (hopened : s.2 = opened ∨ ∃ m ∈ entries, m.2.status = Status.active.value) :
    (∀ id, id ∈ ((Assoc.mapValues BankruptcyDeclaration.record entries).foldl (settle fmt) s).1 ↔
        id ∈ s.1 ∨ ∃ m ∈ entries, m.1 = id ∧ m.2.status = Status.discharged.value) ∧
      ((Assoc.mapValues BankruptcyDeclaration.record entries).foldl (settle fmt) s).2 = opened := by
  have hne : Status.active.value ≠ Status.discharged.value := by decide
  induction entries generalizing s with
  | nil =>
    refine ⟨fun id => (or_iff_left ?_).symm, hopened.resolve_right ?_⟩
    · rintro ⟨m, hm, -⟩
      exact absurd hm List.not_mem_nil
    · rintro ⟨m, hm, -⟩
      exact absurd hm List.not_mem_nil
  | cons m entries ih =>
    obtain ⟨hm, hrest⟩ := List.forall_mem_cons.mp h
    obtain ⟨hdm, hdrest⟩ := List.forall_mem_cons.mp hd
    rcases hm with hdone | ⟨hactive, hself⟩
    · obtain ⟨hids, hlast⟩ := ih hdrest hrest (insert m.1 s.1, s.2) <| by
        refine hopened.imp_right ?_
        rintro ⟨m', hm', hstatus⟩
        rcases List.mem_cons.mp hm' with rfl | hm'
        · exact absurd (hstatus.symm.trans hdone) hne
        · exact ⟨m', hm', hstatus⟩
      have hstep : settle fmt s (m.1, m.2.record) = (insert m.1 s.1, s.2) :=
        settle_discharged hdone m.1 s
      show (∀ id, id ∈ (List.foldl (settle fmt) (settle fmt s (m.1, m.2.record)) _).1 ↔ _) ∧
        (List.foldl (settle fmt) (settle fmt s (m.1, m.2.record)) _).2 = opened
      rw [hstep]
      refine ⟨fun id => (hids id).trans ?_, hlast⟩
      rw [Finset.mem_insert, List.exists_mem_cons_iff, or_assoc, or_left_comm, and_iff_left hdone,
        eq_comm]
    · obtain ⟨hids, hlast⟩ := ih hdrest hrest (s.1, some m.2) (.inl hself.symm)
      have hstep : settle fmt s (m.1, m.2.record) = (s.1, some m.2) := settle_active hactive hdm m.1 s
      show (∀ id, id ∈ (List.foldl (settle fmt) (settle fmt s (m.1, m.2.record)) _).1 ↔ _) ∧
        (List.foldl (settle fmt) (settle fmt s (m.1, m.2.record)) _).2 = opened
      rw [hstep]
      refine ⟨fun id => (hids id).trans ?_, hlast⟩
      have hno : ¬ (m.1 = id ∧ m.2.status = Status.discharged.value) := fun hno =>
        hne (hactive.symm.trans hno.2)
      rw [List.exists_mem_cons_iff, or_iff_right hno]

/-! ### The protocol and its ledger -/

/-- The active declaration as its entry has it. -/
def Protocol.opened (p : Protocol P) : Option (BankruptcyDeclaration P) :=
  p.activeDeclaration.map fun decl => { decl with status := Status.active.value }

/-- The ledger has these events, and the protocol is what they say. -/
structure Written (fmt : Formats P) (events : List (BankruptcyDeclaration P)) (p : Protocol P) :
    Prop where
  log : LogRows P (events.map BankruptcyDeclaration.record) p.ledger
  stays : ∀ decl ∈ events, decl.Stay
  named : ∀ decl ∈ events, decl.epochId ≠ []
  linked : (ledgerFormat fmt).Valid genesis events
  last : (ledgerFormat fmt).tail genesis events = p.lastDigest
  entries : ∀ id decl, (latest events).lookup id = some decl →
    decl.status = Status.discharged.value ∨
      decl.status = Status.active.value ∧ p.opened = some decl
  opened : ∀ decl, p.opened = some decl → (latest events).lookup decl.epochId = some decl
  discharged : ∀ id, id ∈ p.dischargedEpochIds ↔
    ∃ decl, (latest events).lookup id = some decl ∧ decl.status = Status.discharged.value
  standing : ∀ decl, p.activeDeclaration = some decl →
    decl.status = Status.active.value ∨ decl.status = Status.remediation.value
  terms : ∀ decl, p.activeDeclaration = some decl →
    decl.requiredCleanEpochs = p.config.remediationCleanStreak ∧
      decl.remediationTargetHealth = p.config.remediationHealthTarget

namespace Written

variable {p : Protocol P}

theorem new (config : Config P) : Written fmt [] (Protocol.new config) where
  log := LogRows.nil
  stays := List.forall_mem_nil _
  named := List.forall_mem_nil _
  linked := trivial
  last := rfl
  entries _ _ h := by cases h
  opened _ h := by cases h
  discharged id := by
    refine iff_of_false (Finset.notMem_empty id) ?_
    rintro ⟨decl, h, -⟩
    cases h
  standing _ h := by cases h
  terms _ h := by cases h

theorem inBankruptcy_iff (h : Written fmt events p) :
    p.inBankruptcy = true ↔ ∃ decl, p.activeDeclaration = some decl := by
  unfold Protocol.inBankruptcy
  cases hactive : p.activeDeclaration with
  | none => exact iff_of_false Bool.noConfusion fun ⟨_, h⟩ => by cases h
  | some decl => exact iff_of_true (decide_eq_true (h.standing decl hactive)) ⟨decl, rfl⟩

theorem active_eq_none (h : Written fmt events p) (hp : p.inBankruptcy = false) :
    p.activeDeclaration = none := by
  cases hactive : p.activeDeclaration with
  | none => rfl
  | some decl =>
    rw [h.inBankruptcy_iff.mpr ⟨decl, hactive⟩] at hp
    cases hp

theorem verifyChain_eq (h : Written fmt events p) : p.verifyChain fmt = .ok .valid := by
  unfold Protocol.verifyChain
  rw [h.log.readText_eq, Except.map, LogRows.splitlines_eq, verifyFrom_of_valid h.stays h.linked]

theorem load_eq (h : Written fmt events p) : Protocol.load fmt p.config p.ledger =
    .ok { p with activeDeclaration := p.opened, cleanEpochStreak := 0 } := by
  obtain ⟨hids, hactive⟩ := foldl_settle fmt (latest events)
    (fun m hm => (h.stays m.2 (mem_of_lookup_latest (mem_latest_iff.mp hm))).digested)
    (fun m hm => h.entries m.1 m.2 (mem_latest_iff.mp hm)) (∅, none) <| by
      cases hopened : p.opened with
      | none => exact .inl rfl
      | some decl =>
        have hlookup := h.opened decl hopened
        have hstatus : decl.status = Status.active.value := by
          obtain ⟨decl', -, rfl⟩ := Option.map_eq_some_iff.mp hopened
          rfl
        exact .inr ⟨(decl.epochId, decl), mem_latest_iff.mpr hlookup, hstatus⟩
  have hdischarged : ((Assoc.mapValues BankruptcyDeclaration.record (latest events)).foldl
      (settle fmt) (∅, none)).1 = p.dischargedEpochIds := by
    ext id
    rw [hids, h.discharged, or_iff_right (Finset.notMem_empty id)]
    constructor
    · rintro ⟨m, hm, rfl, hstatus⟩
      exact ⟨m.2, mem_latest_iff.mp hm, hstatus⟩
    · rintro ⟨decl, hlookup, hstatus⟩
      exact ⟨(id, decl), mem_latest_iff.mpr hlookup, rfl, hstatus⟩
  unfold Protocol.load
  rw [h.log.readText_eq, Except.map, LogRows.splitlines_eq,
    foldl_loadLine fmt h.stays h.named, h.last]
  dsimp only
  rw [hdischarged, hactive]

theorem recreate (h : Written fmt events p) :
    Written fmt events { p with activeDeclaration := p.opened, cleanEpochStreak := 0 } := by
  have hopened : ∀ decl, p.opened = some decl → ∃ decl', p.activeDeclaration = some decl' ∧
      decl = { decl' with status := Status.active.value } := by
    intro decl hdecl
    obtain ⟨decl', hactive, heq⟩ := Option.map_eq_some_iff.mp hdecl
    exact ⟨decl', hactive, heq.symm⟩
  have hsame : Protocol.opened { p with activeDeclaration := p.opened, cleanEpochStreak := 0 } =
      p.opened := by
    unfold Protocol.opened
    rw [Option.map_map]
    rfl
  refine ⟨h.log, h.stays, h.named, h.linked, h.last, ?_, ?_, h.discharged, ?_, ?_⟩
  · rw [hsame]
    exact h.entries
  · rw [hsame]
    exact h.opened
  · intro decl hdecl
    obtain ⟨decl', -, rfl⟩ := hopened decl hdecl
    exact .inl rfl
  · intro decl hdecl
    obtain ⟨decl', hactive, rfl⟩ := hopened decl hdecl
    exact h.terms decl' hactive

/-! ### What a call writes -/

/-- A declaration that is made for an epoch. -/
structure Declared (fmt : Formats P) (p : Protocol P) (epochId : Str)
    (decl : BankruptcyDeclaration P) : Prop where
  epochId : decl.epochId = epochId
  status : decl.status = Status.active.value
  prevDigest : decl.prevDigest = p.lastDigest
  terms : decl.requiredCleanEpochs = p.config.remediationCleanStreak ∧
    decl.remediationTargetHealth = p.config.remediationHealthTarget
  reason : readAscii decl.reason = decl.reason
  digested : computeDigest fmt decl = .ok decl.declarationDigest

theorem declared_of_declare {epochId : Str} {debtScore healthScore : Number P}
    (h : p.declare fmt epochId debtScore healthScore = .ok decl) : Declared fmt p epochId decl := by
  unfold Protocol.declare at h
  cases hdebt : fmt.fixed 4 debtScore with
  | none =>
    rw [hdebt] at h
    cases h
  | some debt =>
    rw [hdebt] at h
    unfold BankruptcyDeclaration.postInit at h
    dsimp only at h
    rw [if_pos rfl] at h
    obtain ⟨digest, hdigest, rfl⟩ := map_eq_ok.mp h
    refine ⟨rfl, rfl, rfl, ⟨rfl, rfl⟩, readAscii_of_ascii ?_, hdigest⟩
    have hfirst : ∀ c ∈ str "Governance debt ", c < 128 := by decide
    have hsecond : ∀ c ∈ str " exceeds critical threshold ", c < 128 := by decide
    exact List.forall_mem_append.mpr ⟨List.forall_mem_append.mpr ⟨List.forall_mem_append.mpr
      ⟨hfirst, fmt.ascii_fixed 4 debtScore debt hdebt⟩, hsecond⟩, Number.ascii_toStr _⟩

theorem ascii_lastDigest (h : Written fmt events p) : ∀ c ∈ p.lastDigest, c < 128 := by
  have hgenesis : ∀ c ∈ genesis, c < 128 := by decide
  rw [← h.last]
  rcases List.eq_nil_or_concat events with rfl | ⟨rest, decl, rfl⟩
  · exact hgenesis
  · rw [List.concat_eq_append, Chain.Format.tail_concat]
    exact (h.stays decl (by simp)).declarationDigest

theorem stay_of_digested (h : Written fmt events p) (hreason : readAscii decl.reason = decl.reason)
    (hstatus : ∀ c ∈ decl.status, c < 128) (hprev : decl.prevDigest = p.lastDigest)
    (hdigest : computeDigest fmt decl = .ok decl.declarationDigest) : decl.Stay := by
  obtain ⟨-, hepoch, hascii, hne⟩ := spec_computeDigest hdigest
  refine ⟨readAscii_eq_self hepoch, hreason, readAscii_of_ascii hstatus, ?_, hascii, hne⟩
  rw [hprev]
  exact readAscii_of_ascii h.ascii_lastDigest

theorem declared {epochId : Str} (h : Written fmt events p) (hp : p.inBankruptcy = false)
    (hid : epochId ∉ p.dischargedEpochIds) (hnamed : epochId ≠ [])
    (hdecl : Declared fmt p epochId decl) :
    Written fmt (events ++ [decl]) (p.persistEvent decl (some decl)) := by
  have hactive : ∀ c ∈ Status.active.value, c < 128 := by decide
  have hstay : decl.Stay :=
    h.stay_of_digested hdecl.reason (hdecl.status ▸ hactive) hdecl.prevDigest hdecl.digested
  have hnone : p.opened = none := by
    unfold Protocol.opened
    rw [h.active_eq_none hp, Option.map_none]
  have hopened : (p.persistEvent decl (some decl)).opened = some decl := by
    show some { decl with status := Status.active.value } = _
    rw [← hdecl.status]
  -- no entry of the epoch is there yet: it would be a discharged one
  have hfresh : (latest events).lookup decl.epochId = none := by
    rw [Option.eq_none_iff_forall_ne_some]
    intro decl' hlookup
    rcases h.entries _ _ hlookup with hdone | ⟨-, hsome⟩
    · exact hid (hdecl.epochId ▸ (h.discharged _).mpr ⟨decl', hlookup, hdone⟩)
    · rw [hnone] at hsome
      cases hsome
  refine ⟨?_, ?_, ?_, ?_, ?_, ?_, ?_, ?_, ?_, ?_⟩
  · rw [List.map_append, List.map_singleton]
    exact h.log.append decl.record
  · exact List.forall_mem_append.mpr ⟨h.stays, List.forall_mem_singleton.mpr hstay⟩
  · exact List.forall_mem_append.mpr
      ⟨h.named, List.forall_mem_singleton.mpr (hdecl.epochId ▸ hnamed)⟩
  · refine (Chain.Format.valid_concat _).mpr ⟨h.linked, links_iff.mpr ⟨?_, hdecl.digested⟩⟩
    rw [h.last, hdecl.prevDigest]
  · exact Chain.Format.tail_concat _ _ _ _
  · intro id decl' hlookup
    rw [lookup_latest_concat] at hlookup
    split_ifs at hlookup with hself
    · obtain rfl := Option.some.inj hlookup
      exact .inr ⟨hdecl.status, hopened⟩
    · rcases h.entries _ _ hlookup with hdone | ⟨-, hsome⟩
      · exact .inl hdone
      · rw [hnone] at hsome
        cases hsome
  · intro decl' hsome
    obtain rfl := Option.some.inj (hopened.symm.trans hsome)
    rw [lookup_latest_concat, if_pos rfl]
  · intro id
    show id ∈ p.dischargedEpochIds ↔ _
    rw [h.discharged, lookup_latest_concat]
    split_ifs with hself
    · have hne : Status.active.value ≠ Status.discharged.value := by decide
      refine iff_of_false ?_ ?_
      · rintro ⟨decl', hlookup, -⟩
        rw [hself, hfresh] at hlookup
        cases hlookup
      · rintro ⟨decl', hlookup, hdone⟩
        obtain rfl := Option.some.inj hlookup
        exact hne (hdecl.status.symm.trans hdone)
    · rfl
  · intro decl' hsome
    obtain rfl := Option.some.inj hsome
    exact .inl hdecl.status
  · intro decl' hsome
    obtain rfl := Option.some.inj hsome
    exact hdecl.terms

theorem reported {status : Str} (h : Written fmt events p) (hactive : p.activeDeclaration = some decl)
    (hstatus : status = Status.active.value ∨ status = Status.remediation.value) (streak : Int) :
    Written fmt events { p with
      cleanEpochStreak := streak
      activeDeclaration := some { decl with status := status } } := by
  have hopened : Protocol.opened { p with
      cleanEpochStreak := streak
      activeDeclaration := some { decl with status := status } } = p.opened := by
    unfold Protocol.opened
    rw [hactive]
    rfl
  refine ⟨h.log, h.stays, h.named, h.linked, h.last, ?_, ?_, h.discharged, ?_, ?_⟩
  · rw [hopened]
    exact h.entries
  · rw [hopened]
    exact h.opened
  · intro decl' hsome
    obtain rfl := Option.some.inj hsome
    exact hstatus
  · intro decl' hsome
    obtain rfl := Option.some.inj hsome
    exact h.terms decl hactive

theorem discharge (h : Written fmt events p) (hactive : p.activeDeclaration = some decl) :
    ∃ p' events', p.discharge fmt decl = (.ok true, p') ∧ Written fmt events' p' ∧
      p'.config = p.config ∧ p'.activeDeclaration = none ∧ p'.cleanEpochStreak = 0 ∧
      p'.dischargedEpochIds = insert decl.epochId p.dischargedEpochIds := by
  have hopened : p.opened = some { decl with status := Status.active.value } := by
    unfold Protocol.opened
    rw [hactive, Option.map_some]
  have hentry := h.opened _ hopened
  have hdischarged : ∀ c ∈ Status.discharged.value, c < 128 := by decide
  have hne : Status.active.value ≠ Status.discharged.value := by decide
  obtain ⟨hdebt, hid, -⟩ := spec_computeDigest
    (computeDigest_of_valid h.linked (mem_of_lookup_latest hentry))
  obtain ⟨digest, hdigest⟩ := exists_computeDigest
    { decl with prevDigest := p.lastDigest, status := Status.discharged.value }
    hdebt hid hdischarged h.ascii_lastDigest
  -- the entry that is written
  obtain ⟨final, hfinal⟩ : ∃ final, final = { decl with
    prevDigest := p.lastDigest
    status := Status.discharged.value
    declarationDigest := digest } := ⟨_, rfl⟩
  have hstatus : final.status = Status.discharged.value := by rw [hfinal]
  have hepoch : final.epochId = decl.epochId := by rw [hfinal]
  have hprev : final.prevDigest = p.lastDigest := by rw [hfinal]
  have hcompute : computeDigest fmt final = .ok final.declarationDigest := by
    rw [hfinal]
    exact hdigest
  have hreason : readAscii final.reason = final.reason := by
    rw [hfinal]
    exact (h.stays _ (mem_of_lookup_latest hentry)).reason
  have hstay : final.Stay :=
    h.stay_of_digested hreason (hstatus ▸ hdischarged) hprev hcompute
  refine ⟨{ p.persistEvent final none with
      dischargedEpochIds := insert decl.epochId p.dischargedEpochIds
      cleanEpochStreak := 0 }, events ++ [final], ?_, ?_, rfl, rfl, rfl, rfl⟩
  · unfold Protocol.discharge
    dsimp only
    rw [hdigest, hfinal]
  · refine ⟨?_, ?_, ?_, ?_, ?_, ?_, ?_, ?_, ?_, ?_⟩
    · rw [List.map_append, List.map_singleton]
      exact h.log.append final.record
    · exact List.forall_mem_append.mpr ⟨h.stays, List.forall_mem_singleton.mpr hstay⟩
    · refine List.forall_mem_append.mpr ⟨h.named, List.forall_mem_singleton.mpr ?_⟩
      have hnamed := h.named _ (mem_of_lookup_latest hentry)
      rw [hepoch]
      exact hnamed
    · refine (Chain.Format.valid_concat _).mpr ⟨h.linked, links_iff.mpr ⟨?_, hcompute⟩⟩
      rw [h.last, hprev]
    · exact Chain.Format.tail_concat _ _ _ _
    · intro id decl' hlookup
      rw [lookup_latest_concat] at hlookup
      split_ifs at hlookup with hself
      · obtain rfl := Option.some.inj hlookup
        exact .inl hstatus
      · rcases h.entries _ _ hlookup with hdone | ⟨-, hsome⟩
        · exact .inl hdone
        · obtain rfl := Option.some.inj (hopened.symm.trans hsome)
          exact absurd ((epochId_of_lookup hlookup).symm.trans hepoch.symm) hself
    · intro decl' hsome
      cases hsome
    · intro id
      rw [Finset.mem_insert, h.discharged, lookup_latest_concat, hepoch]
      split_ifs with hself
      · exact iff_of_true (.inl hself) ⟨final, rfl, hstatus⟩
      · exact or_iff_right hself
    · intro decl' hsome
      cases hsome
    · intro decl' hsome
      cases hsome

theorem record (h : Written fmt events p) (hactive : p.activeDeclaration = some decl)
    (epochId : Str) (healthScore : Number P) :
    ∃ p' events', Written fmt events' p' ∧ p'.config = p.config ∧
      (p.recordRemediationEpoch fmt epochId healthScore = (.ok false, p') ∧
          p'.inBankruptcy = true ∧ p'.cleanEpochStreak = (p.reported decl healthScore).1 ∧
          p'.dischargedEpochIds = p.dischargedEpochIds ∨
        p.recordRemediationEpoch fmt epochId healthScore = (.ok true, p') ∧
          p.config.remediationCleanStreak ≤ (p.reported decl healthScore).1 ∧
          p'.activeDeclaration = none ∧ p'.cleanEpochStreak = 0 ∧
          p'.dischargedEpochIds = insert decl.epochId p.dischargedEpochIds) := by
  have hp : p.inBankruptcy = true := h.inBankruptcy_iff.mpr ⟨decl, hactive⟩
  -- the protocol with the streak and the declaration updated
  obtain ⟨status, hstatus, hdecl⟩ : ∃ status,
      (status = Status.active.value ∨ status = Status.remediation.value) ∧
        (p.reported decl healthScore).2 = { decl with status := status } := by
    unfold Protocol.reported
    split_ifs with hclean
    · exact ⟨decl.status, h.standing decl hactive, rfl⟩
    · exact ⟨Status.remediation.value, .inr rfl, rfl⟩
  have hw := h.reported hactive hstatus (p.reported decl healthScore).1
  unfold Protocol.recordRemediationEpoch
  rw [hactive]
  dsimp only
  rw [hp, if_neg Bool.noConfusion, hdecl]
  split_ifs with hstreak
  · obtain ⟨p', events', hdischarge, hw', hconfig, hnone, hzero, hids⟩ := hw.discharge rfl
    exact ⟨p', events', hw', hconfig, .inr ⟨hdischarge, hstreak, hnone, hzero, hids⟩⟩
  · exact ⟨_, events, hw, rfl, .inl ⟨rfl, hw.inBankruptcy_iff.mpr ⟨_, rfl⟩, rfl, rfl⟩⟩

end Written

end Adaad.Innovations.Bankruptcy
