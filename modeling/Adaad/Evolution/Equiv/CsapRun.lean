import Adaad.Chain
import Adaad.Evolution.Csap
import Adaad.Py.Json.Equiv.AsciiRows
import Adaad.Py.Reference
import Adaad.Run

/-!
# Runs of the self-amendment protocol

The ledger that the protocol writes is read back as the records that were appended (`Holds`), so the
chain stays intact.  A call does what it promises unless its record cannot be written, the
regression delta compares with nothing, or the co-signature is blank without being empty
(`proper_run_iff_condition`).
-/

namespace Adaad.Evolution.Csap

open Py

variable {P : Platform} {a : Alphabet} {e : Evaluation P}

/-! ### Digests -/

theorem ascii_payloadDigest (payload : Members P.Float) :
    readAscii (payloadDigest P payload) = payloadDigest P payload :=
  readAscii_of_ascii (ascii_prefixed_sha256 P _)

theorem payloadDigest_ne_nil (payload : Members P.Float) : payloadDigest P payload ≠ [] :=
  List.append_ne_nil_of_left_ne_nil (by decide) _

theorem ascii_zeroHash : readAscii zeroHash = zeroHash :=
  readAscii_of_ascii (by decide)

/-! ### Records -/

namespace RatificationRecord

variable {r : RatificationRecord P}

def line (r : RatificationRecord P) : Str :=
  dumpsAscii P .spaced (.dict r.toDict)

def row (r : RatificationRecord P) : Members P.Float :=
  imageItems P (readItems r.toDict)

theorem namedItems_toDict (r : RatificationRecord P) : NamedItems r.toDict := by
  refine .of_names
    [str "record_id", str "proposal_id", str "target_rule_id", str "status", str "gate_0_report",
      str "gate_1_report", str "ratification_hash", str "predecessor_hash", str "timestamp_utc",
      str "schema_version"] rfl (by decide) (by decide)

theorem loads_line (r : RatificationRecord P) : loads P (strip r.line) = some (.dict r.row) := by
  rw [line, strip_dumpsAscii_dict]
  exact loads_dumpsAscii_of_named P r.namedItems_toDict

theorem asciiRow_line (r : RatificationRecord P) : AsciiRow P .spaced r.line :=
  ⟨r.toDict, rfl⟩

theorem get_row {k : Str} {s : Str} (hm : (.str k, .str s) ∈ r.toDict) :
    get r.row k = some (.str (readAscii s)) :=
  get_of_named P r.namedItems_toDict hm

theorem get_row_status (r : RatificationRecord P) :
    get r.row (str "status") = some (.str r.status.value) := by
  have hascii : readAscii r.status.value = r.status.value := by
    refine readAscii_of_ascii ?_
    cases r.status <;> decide
  rw [get_row (s := r.status.value) (by simp [toDict]), hascii]

end RatificationRecord

/-! ### The ledger -/

/-- The records are chained by their ratification hashes. -/
def ledgerFormat (P : Platform) : Chain.Format P.Obj (RatificationRecord P) where
  prev := RatificationRecord.predecessorHash
  hash r := .str r.ratificationHash
  digest _ r := some (.str r.ratificationHash)

/-- The hash of the record is a text of ASCII characters. -/
def Hashed (r : RatificationRecord P) : Prop :=
  readAscii r.ratificationHash = r.ratificationHash ∧ r.ratificationHash ≠ []

/-- The ledger is a chain of these records. -/
structure Holds (rs : List (RatificationRecord P)) (ledger : Bytes) : Prop where
  file : encode ((rs.map RatificationRecord.line).flatMap (· ++ [lf])) = some ledger
  hashed : ∀ r ∈ rs, Hashed r
  chained : (ledgerFormat P).Valid (.str zeroHash) rs

namespace Holds

variable {rs : List (RatificationRecord P)} {ledger : Bytes}

theorem nil : Holds ([] : List (RatificationRecord P)) [] where
  file := rfl
  hashed _ h := absurd h List.not_mem_nil
  chained := trivial

theorem asciiRow (l : Str) (h : l ∈ rs.map RatificationRecord.line) : AsciiRow P .spaced l := by
  obtain ⟨r, -, rfl⟩ := List.mem_map.mp h
  exact r.asciiRow_line

theorem readText_eq (h : Holds rs ledger) :
    readText ledger = .ok ((rs.map RatificationRecord.line).flatMap (· ++ [lf])) :=
  readText_asciiLines asciiRow h.file

theorem filledLines_eq :
    filledLines ((rs.map RatificationRecord.line).flatMap (· ++ [lf])) =
      rs.map RatificationRecord.line :=
  filledLines_asciiLines asciiRow

theorem readRows_eq (h : Holds rs ledger) :
    readRows P strip ledger = .ok (rs.map fun r => .dict r.row) := by
  have hmapM : ∀ rs : List (RatificationRecord P),
      (rs.map RatificationRecord.line).mapM (fun line => loads P (strip line)) =
        some (rs.map fun r => .dict r.row) := by
    intro rs
    induction rs with
    | nil => rfl
    | cons r rs ih =>
      rw [List.map_cons, List.mapM_cons, r.loads_line, ih]
      rfl
  unfold readRows
  rw [h.readText_eq]
  dsimp only
  rw [filledLines_eq, hmapM]

theorem tailHash_eq (h : Holds rs ledger) :
    tailHash P ledger = .ok ((ledgerFormat P).tail (.str zeroHash) rs) := by
  unfold tailHash
  rw [h.readText_eq]
  dsimp only
  rw [filledLines_eq]
  rcases List.eq_nil_or_concat rs with rfl | ⟨rs', r, rfl⟩
  · rfl
  · have hashed := h.hashed r (by simp)
    have hget : get r.row (str "ratification_hash") = some (.str r.ratificationHash) := by
      rw [RatificationRecord.get_row (s := r.ratificationHash)
        (by simp [RatificationRecord.toDict]), hashed.1]
    have htruthy : truthy P (.str r.ratificationHash) = true := by
      simp [truthy, hashed.2]
    rw [List.concat_eq_append, List.map_append, List.map_singleton, List.getLast?_concat]
    dsimp only
    rw [r.loads_line]
    dsimp only
    rw [hget]
    dsimp only
    rw [if_pos htruthy, Chain.Format.tail_concat]
    rfl

theorem verifyLines_eq {s : Str} (hs : readAscii s = s) (hashed : ∀ r ∈ rs, Hashed r)
    (hchain : (ledgerFormat P).Valid (.str s) rs) :
    verifyLines (P := P) (.str s) (rs.map RatificationRecord.line) = .ok true := by
  induction rs generalizing s with
  | nil => rfl
  | cons r rs ih =>
    obtain ⟨⟨hprev, -⟩, hrest⟩ := hchain
    have hprev : r.predecessorHash = .str s := hprev
    obtain ⟨hr, hrs⟩ := List.forall_mem_cons.mp hashed
    have hget : predecessorOf r.row = .str s := by
      rw [predecessorOf, RatificationRecord.get_row (s := s)
        (by simp [RatificationRecord.toDict, hprev]), hs, Option.getD_some]
    have hhash : hashAfter (.str s) r.row = .str r.ratificationHash := by
      rw [hashAfter, RatificationRecord.get_row (s := r.ratificationHash)
        (by simp [RatificationRecord.toDict]), hr.1, Option.getD_some]
    rw [List.map_cons, verifyLines.eq_def]
    dsimp only
    rw [r.loads_line]
    dsimp only
    rw [hget, hhash, if_pos ((sameValue_str P).mpr rfl)]
    exact ih hr.1 hrs hrest

theorem verifyChain_eq (h : Holds rs ledger) : verifyChain P ledger = .ok true := by
  unfold verifyChain
  rw [h.readText_eq]
  dsimp only
  rw [filledLines_eq]
  exact verifyLines_eq ascii_zeroHash h.hashed h.chained

theorem append {r : RatificationRecord P} (h : Holds rs ledger) (hr : Hashed r)
    (hprev : r.predecessorHash = (ledgerFormat P).tail (.str zeroHash) rs) :
    Holds (rs ++ [r]) (appendJson ledger r.toDict) where
  file := by
    obtain ⟨b, hb⟩ := r.asciiRow_line.exists_encode
    have hb' : encode (dumpsAscii P .spaced (.dict r.toDict) ++ [lf]) = some b := hb
    rw [List.map_append, List.map_singleton, List.flatMap_append, List.flatMap_singleton]
    refine encode_append_eq_some.mpr ⟨ledger, b, h.file, hb, ?_⟩
    rw [appendJson, hb', Option.getD_some]
  hashed := List.forall_mem_append.mpr ⟨h.hashed, List.forall_mem_singleton.mpr hr⟩
  chained := Chain.Format.valid_concat _ |>.mpr ⟨h.chained, hprev, rfl⟩

end Holds

/-! ### The gates -/

variable (a) in
/-- What a ratified record says of the call. -/
structure Required (e : Evaluation P) : Prop where
  inMatrix : (e.matrix.lookup e.proposal.targetRuleId).isSome
  evidence : 3 ≤ e.proposal.evidenceRefs.toFinset.card
  parsed : (parse a e.proposal.proposedText).1 = true
  debt : P.numLt e.governanceDebtScore (debtBound P) = true
  regression : P.numLt e.fitnessRegressionDelta (regressionBound P) = true
  epochs : 10 ≤ e.epochSimulationCount
  cosigned : e.matrix.lookup e.proposal.targetRuleId = some .hard →
    ∃ s, e.proposal.human0Cosignature = some s ∧ strip s ≠ []

variable (a) in
/-- The call passes all checks but that of the regression delta. -/
structure Eligible (e : Evaluation P) : Prop where
  inMatrix : (e.matrix.lookup e.proposal.targetRuleId).isSome
  evidence : 3 ≤ e.proposal.evidenceRefs.toFinset.card
  parsed : (parse a e.proposal.proposedText).1 = true
  debt : P.numLt e.governanceDebtScore (debtBound P) = true
  epochs : 10 ≤ e.epochSimulationCount
  cosigned : lacksCosignature e = false

variable (a) in
/-- The record can be written; the regression delta of an eligible call compares with the bound, and
below it, the co-signature for a `Hard` target is not blank. -/
structure Condition (e : Evaluation P) : Prop where
  encodable : Encodable e.proposal.proposalId
  clock : e.now.isSome
  comparable : Eligible a e → P.numLt e.fitnessRegressionDelta (regressionBound P) = true ∨
    atLeastRegressionBound e.fitnessRegressionDelta = true
  cosigned : Eligible a e → atLeastRegressionBound e.fitnessRegressionDelta = false →
    e.matrix.lookup e.proposal.targetRuleId = some .hard →
      ∃ s, e.proposal.human0Cosignature = some s ∧ strip s ≠ []

theorem gateReport_outcome {gateId : Str} {checks : List Check} {digest id : Str} :
    (gateReport gateId checks digest id).outcome = .pass ↔ ∀ c ∈ checks, c.2.1 = true := by
  unfold gateReport
  dsimp only
  split_ifs with h
  · exact iff_of_true rfl (List.all_eq_true.mp h)
  · exact iff_of_false (by decide) fun hall => h (List.all_eq_true.mpr hall)

theorem forall_gate1Checks :
    (∀ c ∈ gate1Checks e, c.2.1 = true) ↔ 10 ≤ e.epochSimulationCount ∧
      atLeastRegressionBound e.fitnessRegressionDelta = false ∧ lacksCosignature e = false := by
  simp only [gate1Checks, List.cons_append, List.nil_append, List.forall_mem_cons, List.all_cons,
    List.all_nil, Bool.and_true, Bool.true_and, Bool.and_eq_true, decide_eq_true_eq,
    Bool.not_eq_true', List.not_mem_nil, false_implies, implies_true, true_and, and_true]
  tauto

theorem forall_gate0Checks :
    (∀ c ∈ gate0Checks a e true, c.2.1 = true) ↔
      (e.matrix.lookup e.proposal.targetRuleId).isSome ∧
        3 ≤ e.proposal.evidenceRefs.toFinset.card ∧
        (parse a e.proposal.proposedText).1 = true ∧
        P.numLt e.governanceDebtScore (debtBound P) = true ∧ lacksCosignature e = false := by
  simp [gate0Checks, List.card_toFinset]

theorem evaluateGate0_eq {rs : List (RatificationRecord P)} {ledger : Bytes}
    (h : Holds rs ledger) :
    ∃ gate0, evaluateGate0 a e ledger = .ok gate0 ∧
      (gate0.outcome = .pass ↔ ∀ c ∈ gate0Checks a e true, c.2.1 = true) := by
  have hgate0 : evaluateGate0 a e ledger = .ok (gateReport (str "CSAP-GATE-0") (gate0Checks a e true)
      (gate0EvidenceDigest (P := P) e.proposal.proposalId (gate0Checks a e true))
      e.proposal.proposalId) := by
    unfold evaluateGate0
    rw [h.tailHash_eq, h.verifyChain_eq]
    rfl
  exact ⟨_, hgate0, gateReport_outcome⟩

theorem statusOf_ratified {gate0 : GateReport} :
    (statusOf e gate0).1 = .ratified ↔ gate0.outcome = .pass ∧ (evaluateGate1 e).outcome = .pass := by
  unfold statusOf
  cases hgate0 : gate0.outcome with
  | fail =>
    dsimp only
    split_ifs <;> simp
  | pass =>
    dsimp only
    cases hgate1 : (evaluateGate1 e).outcome <;> simp

theorem ratified_iff_eligible {gate0 : GateReport}
    (hgate0 : gate0.outcome = .pass ↔ ∀ c ∈ gate0Checks a e true, c.2.1 = true) :
    (statusOf e gate0).1 = .ratified ↔
      Eligible a e ∧ atLeastRegressionBound e.fitnessRegressionDelta = false := by
  rw [statusOf_ratified, hgate0, evaluateGate1, gateReport_outcome, forall_gate0Checks,
    forall_gate1Checks]
  constructor
  · rintro ⟨⟨hmatrix, hrefs, hparse, hdebt, -⟩, hepochs, hdelta, hcosign⟩
    exact ⟨⟨hmatrix, hrefs, hparse, hdebt, hepochs, hcosign⟩, hdelta⟩
  · rintro ⟨h, hdelta⟩
    exact ⟨⟨h.inMatrix, h.evidence, h.parsed, h.debt, h.cosigned⟩, h.epochs, hdelta, h.cosigned⟩

/-! ### A call -/

theorem recordIdOf_eq_ok {id : Str} {status : AmendmentStatus} :
    (∃ s, recordIdOf P id status = .ok s) ↔ Encodable id := by
  have hvalue : Encodable (124 :: status.value) := by
    refine encodable_of_ascii ?_
    cases status <;> decide
  have hencode : Encodable (id ++ 124 :: status.value) ↔ Encodable id :=
    List.forall_mem_append.trans (and_iff_left hvalue)
  rw [← hencode, ← exists_encode_iff]
  unfold recordIdOf
  cases encode (id ++ 124 :: status.value) <;> simp

theorem recordOf_eq_ok {rs : List (RatificationRecord P)} {ledger : Bytes} (h : Holds rs ledger)
    {r : RatificationRecord P} (hr : recordOf a e ledger = .ok r) :
    Encodable e.proposal.proposalId ∧ e.now.isSome ∧ Hashed r ∧
      r.predecessorHash = (ledgerFormat P).tail (.str zeroHash) rs ∧
      (r.status = .ratified ↔
        Eligible a e ∧ atLeastRegressionBound e.fitnessRegressionDelta = false) := by
  obtain ⟨gate0, hgate0, hpass⟩ := evaluateGate0_eq (a := a) (e := e) h
  unfold recordOf at hr
  rw [hgate0, h.tailHash_eq] at hr
  obtain ⟨gate, hg, hr⟩ := bind_eq_ok.mp hr
  obtain rfl := Except.ok.inj hg
  obtain ⟨id, hid, hr⟩ := bind_eq_ok.mp hr
  obtain ⟨hash, htail, hr⟩ := bind_eq_ok.mp hr
  obtain rfl := Except.ok.inj htail
  obtain ⟨now, hnow, hr⟩ := bind_eq_ok.mp hr
  obtain rfl := Except.ok.inj hr
  refine ⟨recordIdOf_eq_ok.mp ⟨id, hid⟩, ?_,
    ⟨ascii_payloadDigest _, payloadDigest_ne_nil _⟩, rfl, ratified_iff_eligible hpass⟩
  cases hclock : e.now with
  | none =>
    rw [hclock] at hnow
    cases hnow
  | some t => rfl

theorem exists_recordOf {rs : List (RatificationRecord P)} {ledger : Bytes} (h : Holds rs ledger)
    (hid : Encodable e.proposal.proposalId) (hnow : e.now.isSome) :
    ∃ r, recordOf a e ledger = .ok r := by
  obtain ⟨gate0, hgate0, -⟩ := evaluateGate0_eq (a := a) (e := e) h
  obtain ⟨id, hid⟩ : ∃ id, recordIdOf P e.proposal.proposalId (statusOf e gate0).1 = .ok id :=
    recordIdOf_eq_ok.mpr hid
  obtain ⟨now, hnow⟩ := Option.isSome_iff_exists.mp hnow
  have hclock : writableTime e.now = .ok now := by
    rw [hnow]
    rfl
  unfold recordOf
  rw [hgate0, h.tailHash_eq, hclock]
  show ∃ r, (recordIdOf P e.proposal.proposalId (statusOf e gate0).1 >>= _) = .ok r
  rw [hid]
  exact ⟨_, rfl⟩

variable (P) in
/-- What the protocol promises of a call. -/
structure Proper (a : Alphabet) (w : Files) (e : Evaluation P) : Prop where
  verified : verifyChain P (w.step P a e).ledger = .ok true
  appendsOne : ∃ rows row, readRows P strip w.ledger = .ok rows ∧
    readRows P strip (w.step P a e).ledger = .ok (rows ++ [.dict row]) ∧
    (get row (str "status") = some (.str AmendmentStatus.ratified.value) → Required a e)

theorem step_ledger {w : Files} :
    (w.step P a e).ledger = match recordOf a e w.ledger with
      | .error _ => w.ledger
      | .ok r => appendJson w.ledger r.toDict := by
  unfold Files.step evaluate
  dsimp only
  cases recordOf a e w.ledger <;> rfl

theorem exists_holds_step {w : Files} (h : ∃ rs : List (RatificationRecord P), Holds rs w.ledger) :
    ∃ rs : List (RatificationRecord P), Holds rs (w.step P a e).ledger := by
  obtain ⟨rs, hrs⟩ := h
  rw [step_ledger]
  cases hr : recordOf a e w.ledger with
  | error x => exact ⟨rs, hrs⟩
  | ok r =>
    obtain ⟨-, -, hashed, hprev, -⟩ := recordOf_eq_ok hrs hr
    exact ⟨rs ++ [r], hrs.append hashed hprev⟩

theorem value_eq_ratified {s : AmendmentStatus} :
    s.value = AmendmentStatus.ratified.value ↔ s = .ratified := by
  cases s <;> decide

theorem required_iff :
    Required a e ↔ Eligible a e ∧ P.numLt e.fitnessRegressionDelta (regressionBound P) = true ∧
      (e.matrix.lookup e.proposal.targetRuleId = some .hard →
        ∃ s, e.proposal.human0Cosignature = some s ∧ strip s ≠ []) := by
  constructor
  · rintro ⟨hmatrix, hrefs, hparse, hdebt, hdelta, hepochs, hcosign⟩
    refine ⟨⟨hmatrix, hrefs, hparse, hdebt, hepochs, ?_⟩, hdelta, hcosign⟩
    unfold lacksCosignature
    rw [Bool.and_eq_false_iff]
    by_cases hhard : e.matrix.lookup e.proposal.targetRuleId = some .hard
    · obtain ⟨s, hs, hblank⟩ := hcosign hhard
      right
      rw [hs, Option.getD_some, decide_eq_false_iff_not]
      rintro rfl
      exact hblank rfl
    · exact .inl (by simpa using hhard)
  · rintro ⟨h, hdelta, hcosign⟩
    exact ⟨h.inMatrix, h.evidence, h.parsed, h.debt, hdelta, h.epochs, hcosign⟩

theorem proper_iff_condition {w : Files}
    (h : ∃ rs : List (RatificationRecord P), Holds rs w.ledger) :
    Proper P a w e ↔ Condition a e := by
  obtain ⟨rs, hrs⟩ := h
  constructor
  · rintro ⟨-, rows, row, hrows, hrows', hstatus⟩
    cases hr : recordOf a e w.ledger with
    | error x =>
      rw [step_ledger, hr] at hrows'
      rw [hrows] at hrows'
      have := congrArg List.length (Except.ok.inj hrows')
      rw [List.length_append, List.length_singleton] at this
      omega
    | ok r =>
      obtain ⟨hid, hnow, hashed, hprev, hratified⟩ := recordOf_eq_ok hrs hr
      rw [step_ledger, hr, (hrs.append hashed hprev).readRows_eq, List.map_append,
        List.map_singleton] at hrows'
      have hrow := (List.append_inj_right' (Except.ok.inj hrows') rfl)
      obtain rfl : r.row = row := by simpa using hrow
      have hrequired : Eligible a e ∧ atLeastRegressionBound e.fitnessRegressionDelta = false →
          Required a e := by
        intro heligible
        refine hstatus ?_
        rw [r.get_row_status, hratified.mpr heligible]
      refine ⟨hid, hnow, fun heligible => ?_, fun heligible hdelta => ?_⟩
      · cases hdelta : atLeastRegressionBound e.fitnessRegressionDelta with
        | true => exact .inr rfl
        | false => exact .inl (hrequired ⟨heligible, hdelta⟩).regression
      · exact (hrequired ⟨heligible, hdelta⟩).cosigned
  · rintro ⟨hid, hnow, hcomparable, hcosigned⟩
    obtain ⟨r, hr⟩ := exists_recordOf (a := a) hrs hid hnow
    obtain ⟨-, -, hashed, hprev, hratified⟩ := recordOf_eq_ok hrs hr
    have hnext := hrs.append hashed hprev
    refine ⟨?_, rs.map fun r => .dict r.row, r.row, hrs.readRows_eq, ?_, fun hstatus => ?_⟩
    · rw [step_ledger, hr]
      exact hnext.verifyChain_eq
    · rw [step_ledger, hr]
      dsimp only
      rw [hnext.readRows_eq, List.map_append, List.map_singleton]
    · rw [r.get_row_status] at hstatus
      have hvalue := Value.str.inj (Option.some.inj hstatus)
      obtain ⟨heligible, hdelta⟩ := hratified.mp (value_eq_ratified.mp hvalue)
      refine required_iff.mpr ⟨heligible, ?_, hcosigned heligible hdelta⟩
      refine (hcomparable heligible).resolve_right ?_
      rw [hdelta]
      exact Bool.false_ne_true

/-! ### Runs -/

/-- Every call of a run does what is promised exactly where the condition holds of all the calls. -/
theorem proper_run_iff_condition (a : Alphabet) (es : List (Evaluation P)) :
    Run.Meets (Files.step P a) (Proper P a) .fresh es ↔ ∀ e ∈ es, Condition a e := by
  have hcongr : Run.Meets (Files.step P a) (Proper P a) .fresh es ↔
      Run.Meets (Files.step P a) (fun _ e => Condition a e) .fresh es :=
    Run.meets_congr_of_invariant
      (J := fun w => ∃ rs : List (RatificationRecord P), Holds rs w.ledger)
      (fun w e h => exists_holds_step h) (fun w e h => proper_iff_condition h) ⟨[], .nil⟩
  exact hcongr.trans Run.meets_iff_forall

/-! ### A delta that is not a number -/

def asciiAlphabet : Alphabet where
  isWord c := (65 ≤ c && c ≤ 90) || (97 ≤ c && c ≤ 122) || (48 ≤ c && c ≤ 57) || c == 95
  sameLetter c d := asciiLower [c] == asciiLower [d]

/-- An amendment whose simulation gave no number. -/
def unmeasured : Evaluation comparingReference where
  proposal :=
    { proposalId := str "p1"
      targetRuleId := str "RULE-1"
      intent := str "relax"
      proposedText := str "Every change MUST keep the chain"
      rationale := str "friction"
      evidenceRefs := [str "e1", str "e2", str "e3"]
      author := str "agent"
      epochId := str "epoch-1"
      human0Cosignature := none }
  matrix := [(str "RULE-1", .classBEligible)]
  governanceDebtScore := .inl 0
  fitnessRegressionDelta := .inr (LiteralFloat.ofText .nan)
  epochSimulationCount := 10
  acseEvidenceAvailable := false
  now := some (str "2026-03-23T00:00:00Z")

/-- It is ratified. -/
theorem not_proper_unmeasured :
    ¬ Run.Meets (Files.step comparingReference asciiAlphabet)
      (Proper comparingReference asciiAlphabet) .fresh [unmeasured] := by
  rintro ⟨hproper, -⟩
  have hcondition := (proper_iff_condition ⟨[], .nil⟩).mp hproper
  have heligible : Eligible asciiAlphabet unmeasured :=
    ⟨by decide, by decide, by decide, by decide, by decide, by decide⟩
  rcases hcondition.comparable heligible with hlt | hge
  · exact absurd hlt (by decide)
  · exact absurd hge (by decide)

end Adaad.Evolution.Csap

/-!
## What the verification of the amendment ledger detects

`verify_chain` compares two fields of each record, as they stand in the file, and hashes nothing
again.  It rejects a file exactly if a record does not name the hash of the record before it, or a
line is no JSON (`tamperEvident_iff_broken`).  So another record in the place of one is noticed only
by its two hashes (`linked_replace`), and removed records only by the hash that comes next
(`linked_remove`).
-/

namespace Adaad.Evolution.Csap

open Py

variable {P : Platform}

/-! ### Links -/

/-- Every record names the hash before it, as the file has it. -/
def Linked : P.Obj → List (Members P.Float) → Prop
  | _, [] => True
  | prevHash, record :: records =>
    sameValue P (predecessorOf record) prevHash = true ∧ Linked (hashAfter prevHash record) records

def lastHash (prevHash : P.Obj) (records : List (Members P.Float)) : P.Obj :=
  records.foldl hashAfter prevHash

variable {prevHash : P.Obj} {as bs cs : List (Members P.Float)} {r r' : Members P.Float}

theorem linked_append :
    Linked prevHash (as ++ bs) ↔ Linked prevHash as ∧ Linked (lastHash prevHash as) bs := by
  induction as generalizing prevHash with
  | nil => exact (and_iff_right trivial).symm
  | cons a as ih => exact (and_congr_right fun _ => ih).trans and_assoc.symm

/-- In the place of a record another one stands unnoticed if it names the same hash, and has the same
one where a record comes after it. -/
theorem linked_replace (h : Linked prevHash (as ++ r :: bs))
    (hprev : predecessorOf r' = predecessorOf r)
    (hhash : bs = [] ∨ hashAfter (lastHash prevHash as) r' = hashAfter (lastHash prevHash as) r) :
    Linked prevHash (as ++ r' :: bs) := by
  rw [linked_append] at h ⊢
  obtain ⟨has, hr, hbs⟩ := h
  refine ⟨has, hprev ▸ hr, ?_⟩
  rcases hhash with rfl | hhash
  · trivial
  · rw [hhash]
    exact hbs

theorem linked_remove (h : Linked prevHash (as ++ (bs ++ cs)))
    (hhash : lastHash (lastHash prevHash as) bs = lastHash prevHash as) :
    Linked prevHash (as ++ cs) := by
  rw [linked_append, linked_append, hhash] at h
  exact linked_append.mpr ⟨h.1, h.2.2⟩

/-! ### The loop -/

/-- A line that the loop stops at: no JSON, or a record that does not name the hash before it. -/
def Breaks (prevHash : P.Obj) (line : Str) : Prop :=
  loads P (strip line) = none ∨
    ∃ record : Members P.Float, loads P (strip line) = some (.dict record) ∧
      sameValue P (predecessorOf record) prevHash = false

def Reads (lines : List Str) (records : List (Members P.Float)) : Prop :=
  List.Forall₂ (fun line record => loads P (strip line) = some (.dict record)) lines records

theorem verifyLines_eq_false_iff {lines : List Str} :
    verifyLines prevHash lines = .ok false ↔
      ∃ before line after records, lines = before ++ line :: after ∧
        Reads (P := P) before records ∧ Linked prevHash records ∧
        Breaks (lastHash prevHash records) line := by
  induction lines generalizing prevHash with
  | nil =>
    refine iff_of_false (by rintro ⟨⟩) ?_
    rintro ⟨before, line, after, -, h, -⟩
    exact List.append_ne_nil_of_right_ne_nil before (List.cons_ne_nil line after) h.symm
  | cons l lines ih =>
    constructor
    · intro h
      rw [verifyLines.eq_def] at h
      dsimp only at h
      cases hl : loads P (strip l) with
      | none => exact ⟨[], l, lines, [], rfl, .nil, trivial, .inl hl⟩
      | some v =>
        rw [hl] at h
        cases v with
        | dict record =>
          dsimp only at h
          by_cases hlink : sameValue P (predecessorOf record) prevHash = true
          · rw [if_pos hlink] at h
            obtain ⟨before, line, after, records, rfl, hreads, hlinked, hbreaks⟩ := ih.mp h
            exact ⟨l :: before, line, after, record :: records, rfl, .cons hl hreads,
              ⟨hlink, hlinked⟩, hbreaks⟩
          · exact ⟨[], l, lines, [], rfl, .nil, trivial,
              .inr ⟨record, hl, Bool.eq_false_iff.mpr hlink⟩⟩
        | none | bool | int | float | str | list | tuple => cases h
    · rintro ⟨before, line, after, records, hsplit, hreads, hlinked, hbreaks⟩
      rw [verifyLines.eq_def]
      dsimp only
      cases hreads with
      | nil =>
        obtain ⟨rfl, rfl⟩ := List.cons.inj hsplit
        rcases hbreaks with hl | ⟨record, hl, hlink⟩
        · rw [hl]
        · rw [hl]
          dsimp only
          exact if_neg (Bool.eq_false_iff.mp hlink)
      | cons hl hreads =>
        obtain ⟨rfl, rfl⟩ := List.cons.inj hsplit
        rw [hl]
        dsimp only
        rw [if_pos hlinked.1]
        exact ih.mpr ⟨_, line, after, _, rfl, hreads, hlinked.2, hbreaks⟩

variable (P) in
/-- The file is a text in which, after linked records, a line does not go on. -/
def Broken (ledger : Bytes) : Prop :=
  ∃ text before line after records, readText ledger = .ok text ∧
    filledLines text = before ++ line :: after ∧ Reads (P := P) before records ∧
    Linked (.str zeroHash) records ∧ Breaks (lastHash (.str zeroHash) records) line

theorem verifyChain_eq_false_iff {ledger : Bytes} :
    verifyChain P ledger = .ok false ↔ Broken P ledger := by
  unfold verifyChain Broken
  cases readText ledger with
  | error e =>
    refine iff_of_false (by rintro ⟨⟩) ?_
    rintro ⟨text, before, line, after, records, h, -⟩
    cases h
  | ok text =>
    dsimp only
    rw [verifyLines_eq_false_iff]
    constructor
    · rintro ⟨before, line, after, records, h⟩
      exact ⟨text, before, line, after, records, rfl, h⟩
    · rintro ⟨text', before, line, after, records, htext, h⟩
      obtain rfl := Except.ok.inj htext
      exact ⟨before, line, after, records, h⟩

/-! ### Gates on a broken ledger -/

variable (P) in
/-- The ledger is found broken: where the first gate comes to an end its check of the history fails,
and nothing is ratified. -/
structure Rejected (ledger : Bytes) : Prop where
  found : verifyChain P ledger = .ok false
  check5 : ∀ (a : Alphabet) (e : Evaluation P) gate0, evaluateGate0 a e ledger = .ok gate0 →
    str "CHECK-5-HISTORY-DIGEST" ∈ gate0.checksFailed
  unratified : ∀ (a : Alphabet) (e : Evaluation P) queue r,
    (evaluate a ⟨queue, ledger⟩ e).1 ≠ .ok (.ratified, r)

theorem evaluateGate0_of_broken {ledger : Bytes} (h : verifyChain P ledger = .ok false)
    {a : Alphabet} {e : Evaluation P} {gate0 : GateReport}
    (hgate0 : evaluateGate0 a e ledger = .ok gate0) :
    gate0 = gateReport (str "CSAP-GATE-0") (gate0Checks a e false)
      (gate0EvidenceDigest (P := P) e.proposal.proposalId (gate0Checks a e false))
      e.proposal.proposalId := by
  unfold evaluateGate0 at hgate0
  rw [h] at hgate0
  obtain ⟨tail, -, hgate0⟩ := bind_eq_ok.mp hgate0
  exact (Except.ok.inj hgate0).symm

theorem rejected_iff {ledger : Bytes} :
    Rejected P ledger ↔ verifyChain P ledger = .ok false := by
  refine ⟨Rejected.found, fun h => ⟨h, fun a e gate0 hgate0 => ?_, fun a e queue r hratified => ?_⟩⟩
  · rw [evaluateGate0_of_broken h hgate0]
    refine List.mem_map_of_mem (List.mem_filter.mpr
      ⟨show (str "CHECK-5-HISTORY-DIGEST", false, amendmentReplayBroken) ∈ gate0Checks a e false
        from ?_, rfl⟩)
    simp [gate0Checks]
  · unfold evaluate at hratified
    dsimp only at hratified
    cases hr : recordOf a e ledger with
    | error x =>
      rw [hr] at hratified
      cases hratified
    | ok record =>
      rw [hr] at hratified
      obtain ⟨hstatus, -⟩ := Prod.mk.inj (Except.ok.inj hratified)
      unfold recordOf at hr
      obtain ⟨gate0, hgate0, hr⟩ := bind_eq_ok.mp hr
      obtain ⟨id, -, hr⟩ := bind_eq_ok.mp hr
      obtain ⟨tail, -, hr⟩ := bind_eq_ok.mp hr
      obtain ⟨now, -, hr⟩ := bind_eq_ok.mp hr
      obtain rfl := Except.ok.inj hr
      have hpass := (statusOf_ratified.mp hstatus).1
      rw [evaluateGate0_of_broken h hgate0, gateReport_outcome] at hpass
      have hcheck := hpass (str "CHECK-5-HISTORY-DIGEST", false, amendmentReplayBroken)
        (by simp [gate0Checks])
      cases hcheck

/-! ### Tamper evidence -/

variable (P) in
/-- The ledger has become another one, which does not just lack its last records. -/
def Changed (ledger ledger' : Bytes) : Prop :=
  ¬ ∃ rows rows', readRows P strip ledger = .ok rows ∧ readRows P strip ledger' = .ok rows' ∧
    rows' <+: rows

variable (P) in
/-- The ledger is verified, and what it has become is not, where it has changed. -/
def TamperEvident (ledger ledger' : Bytes) : Prop :=
  verifyChain P ledger = .ok true ∧ (Changed P ledger ledger' → Rejected P ledger')

/-- The ledger of a run is verified, and what it has become is rejected exactly if it is broken. -/
theorem tamperEvident_iff_broken (a : Alphabet) (es : List (Evaluation P)) (ledger' : Bytes) :
    TamperEvident P (Run.run (Files.step P a) .fresh es).ledger ledger' ↔
      (Changed P (Run.run (Files.step P a) .fresh es).ledger ledger' → Broken P ledger') := by
  have hfresh : ∃ rs : List (RatificationRecord P), Holds rs Files.fresh.ledger := ⟨[], .nil⟩
  obtain ⟨rs, hrs⟩ := (Run.always_of_forall_step
    (I := fun w : Files => ∃ rs : List (RatificationRecord P), Holds rs w.ledger)
    (fun w e h => exists_holds_step (a := a) (e := e) h) hfresh es).last
  unfold TamperEvident
  rw [rejected_iff, verifyChain_eq_false_iff]
  exact and_iff_right hrs.verifyChain_eq

/-! ### A record about another rule -/

theorem targetRuleId_of_recordOf {a : Alphabet} {e : Evaluation P} {ledger : Bytes}
    {r : RatificationRecord P} (h : recordOf a e ledger = .ok r) :
    r.targetRuleId = e.proposal.targetRuleId := by
  unfold recordOf at h
  obtain ⟨gate0, -, h⟩ := bind_eq_ok.mp h
  obtain ⟨id, -, h⟩ := bind_eq_ok.mp h
  obtain ⟨tail, -, h⟩ := bind_eq_ok.mp h
  obtain ⟨now, -, h⟩ := bind_eq_ok.mp h
  obtain rfl := Except.ok.inj h
  rfl

/-- The record says that it was about another rule. -/
def RatificationRecord.retarget (r : RatificationRecord P) : RatificationRecord P :=
  { r with targetRuleId := str "RULE-2" }

theorem holds_retarget {r : RatificationRecord P} {ledger : Bytes} (h : Holds [r] ledger) :
    Holds [r.retarget] (appendJson [] r.retarget.toDict) := by
  have hhashed : Hashed r.retarget := h.hashed r List.mem_cons_self
  exact Holds.nil.append hhashed h.chained.1.1

theorem step_ledger_of_ok {a : Alphabet} {w : Files} {e : Evaluation P}
    {r : RatificationRecord P} (h : recordOf a e w.ledger = .ok r) :
    (w.step P a e).ledger = appendJson w.ledger r.toDict := by
  rw [step_ledger, h]

/-- A record can be made one about another rule: the hashes are not computed again. -/
theorem not_tamperEvident_retarget : ∃ ledger', ¬ TamperEvident comparingReference
    (Run.run (Files.step comparingReference asciiAlphabet) .fresh [unmeasured]).ledger
      ledger' := by
  obtain ⟨r, hr⟩ := exists_recordOf (a := asciiAlphabet) (e := unmeasured) .nil
    (encodable_of_ascii (by decide)) rfl
  have hledger : (Run.run (Files.step comparingReference asciiAlphabet) .fresh
      [unmeasured]).ledger = appendJson [] r.toDict := step_ledger_of_ok hr
  obtain ⟨-, -, hashed, hprev, -⟩ := recordOf_eq_ok .nil hr
  have hholds : Holds [r] (appendJson [] r.toDict) := Holds.nil.append hashed hprev
  have hholds' := holds_retarget hholds
  refine ⟨appendJson [] r.retarget.toDict, fun h => ?_⟩
  have hrejected := (h.2 ?_).found
  · rw [hholds'.verifyChain_eq] at hrejected
    cases hrejected
  · rintro ⟨rows, rows', hrows, hrows', hbegins⟩
    rw [hledger, hholds.readRows_eq] at hrows
    rw [hholds'.readRows_eq] at hrows'
    obtain rfl := Except.ok.inj hrows
    obtain rfl := Except.ok.inj hrows'
    have hrow : r.retarget.row = r.row :=
      Value.dict.inj (List.cons.inj (hbegins.eq_of_length rfl)).1
    have hget : get r.retarget.row (str "target_rule_id") = some (.str (readAscii (str "RULE-2"))) :=
      RatificationRecord.get_row (by simp [RatificationRecord.toDict, RatificationRecord.retarget])
    rw [hrow, RatificationRecord.get_row (s := r.targetRuleId)
      (by simp [RatificationRecord.toDict]), targetRuleId_of_recordOf hr] at hget
    exact absurd (Value.str.inj (Option.some.inj hget)) (by decide)

end Adaad.Evolution.Csap
