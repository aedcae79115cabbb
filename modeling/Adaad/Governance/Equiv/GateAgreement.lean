import Adaad.Governance.GovernanceGate
import Adaad.Py.Json.Equiv.AsciiRows

/-!
# Serial and parallel decisions

The parallel gate fails every axis that is not ok, the serial one only those that the founders law
enforces; and the two hash different texts.  So the two forms agree only where every failing axis is
enforced and SHA-256 gives two texts one digest, or where a text has no bytes and both raise
(`agrees_iff`).
-/

namespace Adaad.GovernanceGate

open Py Lineage

variable {P : Platform} {policy : LawPolicy} {q : GateRequest}

def GateDecision.failedRuleIds (d : GateDecision) : List Str :=
  d.failedRules.map (·.text ruleIdKey)

def GateDecision.summary (d : GateDecision) : Bool × List Str × Str :=
  (d.approved, d.failedRuleIds, d.decisionId)

/-- Every axis that fails has a rule that the founders law enforces. -/
def AllEnforced (policy : LawPolicy) (q : GateRequest) : Prop :=
  ∀ r ∈ q.axisResults, r.ok = false → isEnforced policy r.ruleId = true

/-- All texts of the request have bytes. -/
structure Writable (q : GateRequest) : Prop where
  mutationId : Encodable q.mutationId
  trustMode : Encodable q.trustMode
  axes : ∀ r ∈ q.axisResults, Encodable r.axis ∧ Encodable r.ruleId ∧ Encodable r.reason

variable (P policy q) in
/-- The two texts that are hashed are different and have one digest. -/
def Collides : Prop :=
  ∃ t t' b b', dumpsSorted P .compact (.dict (identityPayload P (serialDecision policy q))) = some t ∧
    dumpsSorted P .compact (.dict (decisionPayload P (parallelDecision policy q))) = some t' ∧
    encode t = some b ∧ encode t' = some b' ∧ t ≠ t' ∧ P.sha256 b = P.sha256 b'

/-! ### Axes -/

theorem mem_sortedAxes {axes : List GateAxisResult} {r : GateAxisResult} :
    r ∈ sortedAxes axes ↔ r ∈ axes :=
  List.mem_insertionSort _

theorem sortedAxes_evaluated (axes : List GateAxisResult) :
    sortedAxes (axes.map GateAxisResult.evaluated) = (sortedAxes axes).map GateAxisResult.evaluated :=
  (List.map_insertionSort _ _ GateAxisResult.evaluated axes fun _ _ _ _ => Iff.rfl).symm

theorem keyLe_total (a b : Str × Str) : keyLe a b = true ∨ keyLe b a = true := by
  unfold keyLe
  by_cases h : a.1 = b.1
  · rw [if_pos h, if_pos h.symm]
    exact strLe_total _ _
  · rw [if_neg h, if_neg (Ne.symm h)]
    exact strLe_total _ _

theorem keyLe_trans {a b c : Str × Str} (hab : keyLe a b = true) (hbc : keyLe b c = true) :
    keyLe a c = true := by
  unfold keyLe at *
  by_cases h : a.1 = b.1
  · rw [if_pos h] at hab
    by_cases h' : b.1 = c.1
    · rw [if_pos h'] at hbc
      rw [if_pos (h.trans h')]
      exact strLe_trans hab hbc
    · rw [if_neg h'] at hbc
      rw [if_neg (h ▸ h'), h]
      exact hbc
  · rw [if_neg h] at hab
    by_cases h' : b.1 = c.1
    · rw [if_neg (h' ▸ h), ← h']
      exact hab
    · rw [if_neg h'] at hbc
      have hac : a.1 ≠ c.1 := fun heq => h (strLe_antisymm hab (heq ▸ hbc))
      rw [if_neg hac]
      exact strLe_trans hab hbc

theorem pairwise_sortedAxes (axes : List GateAxisResult) :
    (sortedAxes axes).Pairwise fun a b => keyLe a.key b.key = true := by
  have : Std.Total fun a b : GateAxisResult => keyLe a.key b.key = true :=
    ⟨fun a b => keyLe_total a.key b.key⟩
  have : IsTrans GateAxisResult fun a b => keyLe a.key b.key = true :=
    ⟨fun _ _ _ => keyLe_trans⟩
  exact List.pairwise_insertionSort _ _

/-! ### Failed rules -/

theorem failedRuleIds_serial :
    (serialDecision policy q).failedRuleIds =
      (((sortedAxes q.axisResults).filter fun r => !r.ok).filter fun r =>
        isEnforced policy r.ruleId).map GateAxisResult.ruleId := by
  have htext : ∀ c : Check, FailedRule.text [(ruleIdKey, c.ruleId),
      (str "reason", if c.reason = [] then str "failed" else c.reason)] ruleIdKey = c.ruleId := by
    intro c
    rw [FailedRule.text, List.lookup_cons_self, Option.getD_some]
  unfold GateDecision.failedRuleIds serialDecision enforceLaw
  dsimp only
  rw [List.map_map, List.filter_map, List.map_map, List.filter_filter]
  exact List.map_congr_left fun r _ => htext r.check

theorem addFailedRule_of_mem {s : List Str × List FailedRule} {rules : List FailedRule}
    (h : ∀ rule ∈ rules, rule.text ruleIdKey ∈ s.1) : rules.foldl addFailedRule s = s := by
  induction rules with
  | nil => rfl
  | cons rule rules ih =>
    obtain ⟨hrule, hrules⟩ := List.forall_mem_cons.mp h
    rw [List.foldl_cons, addFailedRule, if_pos hrule]
    exact ih hrules

def axisRule (r : GateAxisResult) : FailedRule :=
  [(axisKey, r.axis), (ruleIdKey, r.ruleId)]

theorem axisRule_key (r : GateAxisResult) : (axisRule r).key = r.key := rfl

theorem axisRule_text (r : GateAxisResult) : (axisRule r).text ruleIdKey = r.ruleId := rfl

/-- The failing axes as the parallel gate has them. -/
def failingAxes (q : GateRequest) : List GateAxisResult :=
  (sortedAxes (q.axisResults.map GateAxisResult.evaluated)).filter fun r => !r.ok

theorem failedRules_parallel :
    (parallelDecision policy q).failedRules = (failingAxes q).map axisRule := by
  have hadd : ∀ rule ∈ (enforceLaw policy ((sortedAxes (q.axisResults.map
      GateAxisResult.evaluated)).map GateAxisResult.check)).failedRules,
      rule.text ruleIdKey ∈ ((failingAxes q).map axisRule).map (·.text ruleIdKey) := by
    intro rule hrule
    obtain ⟨c, hc, rfl⟩ := List.mem_map.mp hrule
    obtain ⟨hmem, hfail⟩ := List.mem_filter.mp hc
    obtain ⟨r, hr, rfl⟩ := List.mem_map.mp hmem
    refine List.mem_map.mpr ⟨axisRule r, List.mem_map_of_mem (List.mem_filter.mpr ⟨hr, ?_⟩), ?_⟩
    · exact (Bool.and_eq_true_iff.mp hfail).2
    · rw [axisRule_text, FailedRule.text, List.lookup_cons_self, Option.getD_some]
      rfl
  have hsorted : sortedRules ((failingAxes q).map axisRule) = (failingAxes q).map axisRule := by
    refine List.Pairwise.insertionSort_eq (List.pairwise_map.mpr ?_)
    exact (pairwise_sortedAxes _).filter _
  refine Eq.trans (congrArg sortedRules ?_) hsorted
  split_ifs
  · rfl
  · exact congrArg Prod.snd (addFailedRule_of_mem hadd)

theorem failedRuleIds_parallel :
    (parallelDecision policy q).failedRuleIds =
      ((sortedAxes q.axisResults).filter fun r => !r.ok).map GateAxisResult.ruleId := by
  unfold GateDecision.failedRuleIds
  rw [failedRules_parallel, List.map_map, failingAxes, sortedAxes_evaluated, List.filter_map,
    List.map_map]
  rfl

theorem failedRuleIds_eq_iff :
    (parallelDecision policy q).failedRuleIds = (serialDecision policy q).failedRuleIds ↔
      AllEnforced policy q := by
  rw [failedRuleIds_parallel, failedRuleIds_serial]
  constructor
  · intro heq r hr hok
    have hlength := congrArg List.length heq
    rw [List.length_map, List.length_map] at hlength
    have hall := List.length_filter_eq_length_iff.mp hlength.symm
    refine hall r (List.mem_filter.mpr ⟨mem_sortedAxes.mpr hr, ?_⟩)
    rw [hok, Bool.not_false]
  · intro hall
    congr 1
    symm
    rw [List.filter_eq_self]
    intro r hr
    obtain ⟨hmem, hok⟩ := List.mem_filter.mp hr
    exact hall r (mem_sortedAxes.mp hmem) (by simpa using hok)

/-! ### Approval -/

theorem approved_serial :
    (serialDecision policy q).approved =
      ((serialDecision policy q).failedRuleIds.isEmpty || q.humanOverride) := by
  have hpassed : ∀ law : LawDecision, law.passed = law.failedRules.isEmpty →
      (law.passed || (q.humanOverride && !law.passed)) =
        ((law.failedRules.map (·.text ruleIdKey)).isEmpty || q.humanOverride) := by
    intro law hlaw
    rw [hlaw, List.isEmpty_map]
    cases law.failedRules.isEmpty <;> cases q.humanOverride <;> rfl
  exact hpassed _ List.isEmpty_map.symm

theorem approved_parallel :
    (parallelDecision policy q).approved =
      ((parallelDecision policy q).failedRuleIds.isEmpty || q.humanOverride) := by
  have hids : (parallelDecision policy q).failedRuleIds.isEmpty = (failingAxes q).isEmpty := by
    rw [GateDecision.failedRuleIds, failedRules_parallel, List.isEmpty_map, List.isEmpty_map]
  have happroved : (parallelDecision policy q).approved =
      (((failingAxes q).isEmpty && (enforceLaw policy ((sortedAxes (q.axisResults.map
          GateAxisResult.evaluated)).map GateAxisResult.check)).passed) ||
        (q.humanOverride && !((failingAxes q).isEmpty && (enforceLaw policy ((sortedAxes
          (q.axisResults.map GateAxisResult.evaluated)).map GateAxisResult.check)).passed))) := rfl
  -- where no axis fails, the law passes
  have hlaw : (failingAxes q).isEmpty = true → (enforceLaw policy ((sortedAxes (q.axisResults.map
      GateAxisResult.evaluated)).map GateAxisResult.check)).passed = true := by
    intro hempty
    refine List.isEmpty_iff.mpr (List.filter_eq_nil_iff.mpr fun c hc hfail => ?_)
    obtain ⟨r, hr, rfl⟩ := List.mem_map.mp hc
    have hmem : r ∈ failingAxes q :=
      List.mem_filter.mpr ⟨hr, (Bool.and_eq_true_iff.mp hfail).2⟩
    rw [List.isEmpty_iff.mp hempty] at hmem
    exact List.not_mem_nil hmem
  rw [happroved, hids]
  cases hempty : (failingAxes q).isEmpty with
  | true =>
    rw [hlaw hempty]
    rfl
  | false => rw [Bool.false_and, Bool.false_or, Bool.not_false, Bool.and_true, Bool.false_or]

/-! ### Digests -/

section texts

variable {F : Type}

theorem encodable_texts_iff {texts : List Str} :
    Encodable (Value.list (texts.map Value.str) : Value F).chars ↔ ∀ s ∈ texts, Encodable s := by
  rw [encodable_list_iff, List.forall_mem_map]
  rfl

theorem encodable_axis_iff {r : GateAxisResult} :
    Encodable (r.toDict : Value F).chars ↔
      Encodable r.axis ∧ Encodable r.ruleId ∧ Encodable r.reason := by
  have hkey : ∀ s : Str, (∀ c ∈ s, c < 128) → Encodable (Key.str s : Key F).chars :=
    fun s hs => encodable_of_ascii hs
  unfold GateAxisResult.toDict
  rw [encodable_dict_iff]
  simp only [List.forall_mem_cons, List.not_mem_nil, false_implies, implies_true, and_true,
    hkey axisKey (by decide), hkey ruleIdKey (by decide), hkey (str "ok") (by decide),
    hkey (str "reason") (by decide), true_and, encodable_str_iff]
  exact and_congr_right fun _ => and_congr_right fun _ => and_iff_right encodable_nil

end texts

/-- The texts of a decision have bytes. -/
structure GateDecision.Written (d : GateDecision) : Prop where
  decision : Encodable d.decision
  mutationId : Encodable d.mutationId
  trustMode : Encodable d.trustMode
  reasonCodes : ∀ s ∈ d.reasonCodes, Encodable s
  failedRules : ∀ rule ∈ d.failedRules, ∀ m ∈ rule, Encodable m.1 ∧ Encodable m.2
  axes : ∀ r ∈ d.axisResults, Encodable r.axis ∧ Encodable r.ruleId ∧ Encodable r.reason

theorem encodable_failedRules_iff {F : Type} {rules : List FailedRule} :
    Encodable (Value.list (rules.map FailedRule.toDict) : Value F).chars ↔
      ∀ rule ∈ rules, ∀ m ∈ rule, Encodable m.1 ∧ Encodable m.2 := by
  rw [encodable_list_iff, List.forall_mem_map]
  refine forall₂_congr fun rule _ => ?_
  rw [FailedRule.toDict, encodable_dict_iff, List.forall_mem_map]
  rfl

theorem encodable_axes_iff {F : Type} {axes : List GateAxisResult} :
    Encodable (Value.list (axes.map GateAxisResult.toDict) : Value F).chars ↔
      ∀ r ∈ axes, Encodable r.axis ∧ Encodable r.ruleId ∧ Encodable r.reason := by
  rw [encodable_list_iff, List.forall_mem_map]
  exact forall₂_congr fun r _ => encodable_axis_iff

theorem encodable_payloads {d : GateDecision} (hdecision : Encodable d.decision) :
    (Encodable (Value.dict (identityPayload P d)).chars ↔ d.Written) ∧
      (Encodable (Value.dict (decisionPayload P d)).chars ↔ d.Written) := by
  have hkey : ∀ s : Str, (∀ c ∈ s, c < 128) → Encodable (Key.str s : Key P.Float).chars :=
    fun s hs => encodable_of_ascii hs
  have hwritten : d.Written ↔ Encodable d.mutationId ∧ Encodable d.trustMode ∧
      (∀ s ∈ d.reasonCodes, Encodable s) ∧
      (∀ rule ∈ d.failedRules, ∀ m ∈ rule, Encodable m.1 ∧ Encodable m.2) ∧
      ∀ r ∈ d.axisResults, Encodable r.axis ∧ Encodable r.ruleId ∧ Encodable r.reason :=
    ⟨fun h => ⟨h.mutationId, h.trustMode, h.reasonCodes, h.failedRules, h.axes⟩,
      fun h => ⟨hdecision, h.1, h.2.1, h.2.2.1, h.2.2.2.1, h.2.2.2.2⟩⟩
  have hversion : Encodable (str "v1.0.0") := encodable_of_ascii (by decide)
  have hbool : ∀ b : Bool, Encodable (Value.bool b : P.Obj).chars := fun _ => encodable_nil
  rw [hwritten]
  constructor
  · unfold identityPayload
    rw [encodable_dict_iff]
    simp only [List.forall_mem_cons, List.not_mem_nil, false_implies, implies_true, and_true,
      hkey (str "approved") (by decide), hkey (str "decision") (by decide),
      hkey (str "mutation_id") (by decide), hkey (str "trust_mode") (by decide),
      hkey (str "reason_codes") (by decide), hkey (str "failed_rules") (by decide),
      hkey (str "human_override") (by decide), hkey (str "axis_results") (by decide), true_and,
      encodable_texts_iff, encodable_failedRules_iff, encodable_axes_iff, encodable_str_iff, hbool,
      hdecision]
  · unfold decisionPayload
    rw [encodable_dict_iff]
    simp only [List.forall_mem_cons, List.not_mem_nil, false_implies, implies_true, and_true,
      hkey (str "approved") (by decide), hkey (str "mutation_id") (by decide),
      hkey (str "trust_mode") (by decide), hkey (str "reason_codes") (by decide),
      hkey (str "failed_rules") (by decide), hkey (str "human_override") (by decide),
      hkey (str "axis_results") (by decide), hkey (str "gate_version") (by decide), true_and,
      encodable_texts_iff, encodable_failedRules_iff, encodable_axes_iff, encodable_str_iff, hbool,
      hversion]

theorem encodable_axisKey : Encodable axisKey := encodable_of_ascii (by decide)

theorem encodable_ruleIdKey : Encodable ruleIdKey := encodable_of_ascii (by decide)

theorem encodable_enforceLaw {checks : List Check}
    (h : ∀ c ∈ checks, Encodable c.ruleId ∧ Encodable c.reason) :
    (∀ s ∈ (enforceLaw policy checks).reasonCodes, Encodable s) ∧
      ∀ rule ∈ (enforceLaw policy checks).failedRules, ∀ m ∈ rule, Encodable m.1 ∧ Encodable m.2 := by
  constructor
  · intro s hs
    unfold enforceLaw at hs
    dsimp only at hs
    split_ifs at hs
    · rw [List.mem_singleton.mp hs]
      exact encodable_of_ascii (by decide)
    · rcases List.mem_cons.mp hs with rfl | hs
      · exact encodable_of_ascii (by decide)
      · obtain ⟨c, hc, rfl⟩ := List.mem_map.mp hs
        exact (h c (List.mem_filter.mp hc).1).1
  · intro rule hrule m hm
    obtain ⟨c, hc, rfl⟩ := List.mem_map.mp hrule
    obtain ⟨hid, hreason⟩ := h c (List.mem_filter.mp hc).1
    have hkey : Encodable (str "reason") := encodable_of_ascii (by decide)
    rcases List.mem_cons.mp hm with rfl | hm
    · exact ⟨encodable_ruleIdKey, hid⟩
    · rw [List.mem_singleton.mp hm]
      refine ⟨hkey, ?_⟩
      dsimp only
      split_ifs
      · exact encodable_of_ascii (by decide)
      · exact hreason

theorem written_serial_iff : (serialDecision policy q).Written ↔ Writable q := by
  constructor
  · intro h
    exact ⟨h.mutationId, h.trustMode, fun r hr => h.axes r (mem_sortedAxes.mpr hr)⟩
  · intro h
    have hchecks : ∀ c ∈ (sortedAxes q.axisResults).map GateAxisResult.check,
        Encodable c.ruleId ∧ Encodable c.reason :=
      List.forall_mem_map.mpr fun r hr => (h.axes r (mem_sortedAxes.mp hr)).2
    obtain ⟨hcodes, hrules⟩ := @encodable_enforceLaw policy _ hchecks
    refine ⟨?_, h.mutationId, h.trustMode, ?_, hrules, fun r hr => h.axes r (mem_sortedAxes.mp hr)⟩
    · unfold serialDecision enforceLaw
      dsimp only
      split_ifs <;> exact encodable_of_ascii (by decide)
    · unfold serialDecision
      dsimp only
      split_ifs
      · exact List.forall_mem_append.mpr
          ⟨hcodes, List.forall_mem_singleton.mpr (encodable_of_ascii (by decide))⟩
      · exact hcodes

theorem encodable_evaluated {r : GateAxisResult} :
    Encodable r.evaluated.reason ↔ Encodable r.reason := by
  unfold GateAxisResult.evaluated
  dsimp only
  split_ifs with hnil
  · rw [hnil]
    exact iff_of_true (encodable_of_ascii (by decide)) encodable_nil
  · exact Iff.rfl

theorem encodable_addReasonCode {codes : List Str} {code : Str} (h : ∀ s ∈ codes, Encodable s)
    (hcode : Encodable code) : ∀ s ∈ addReasonCode codes code, Encodable s := by
  unfold addReasonCode
  split_ifs
  · exact h
  · exact List.forall_mem_append.mpr ⟨h, List.forall_mem_singleton.mpr hcode⟩

theorem encodable_foldl_addReasonCode {codes added : List Str} (h : ∀ s ∈ codes, Encodable s)
    (hadded : ∀ s ∈ added, Encodable s) : ∀ s ∈ added.foldl addReasonCode codes, Encodable s := by
  induction added generalizing codes with
  | nil => exact h
  | cons code added ih =>
    obtain ⟨hcode, hrest⟩ := List.forall_mem_cons.mp hadded
    exact ih (encodable_addReasonCode h hcode) hrest

theorem written_parallel_iff : (parallelDecision policy q).Written ↔ Writable q := by
  constructor
  · intro h
    refine ⟨h.mutationId, h.trustMode, fun r hr => ?_⟩
    have hr' : r.evaluated ∈ (parallelDecision policy q).axisResults :=
      mem_sortedAxes.mpr (List.mem_map_of_mem hr)
    obtain ⟨haxis, hid, hreason⟩ := h.axes _ hr'
    exact ⟨haxis, hid, encodable_evaluated.mp hreason⟩
  · intro h
    have haxes : ∀ r ∈ sortedAxes (q.axisResults.map GateAxisResult.evaluated),
        Encodable r.axis ∧ Encodable r.ruleId ∧ Encodable r.reason := by
      intro r hr
      obtain ⟨r', hr', rfl⟩ := List.mem_map.mp (mem_sortedAxes.mp hr)
      obtain ⟨haxis, hid, hreason⟩ := h.axes r' hr'
      exact ⟨haxis, hid, encodable_evaluated.mpr hreason⟩
    have hchecks : ∀ c ∈ (sortedAxes (q.axisResults.map GateAxisResult.evaluated)).map
        GateAxisResult.check, Encodable c.ruleId ∧ Encodable c.reason :=
      List.forall_mem_map.mpr fun r hr => (haxes r hr).2
    obtain ⟨hcodes, -⟩ := @encodable_enforceLaw policy _ hchecks
    have hreasons : ∀ s ∈ (failingAxes q).map GateAxisResult.reason, Encodable s :=
      List.forall_mem_map.mpr fun r hr => (haxes r (List.mem_filter.mp hr).1).2.2
    refine ⟨?_, h.mutationId, h.trustMode, ?_, ?_, haxes⟩
    · unfold parallelDecision
      dsimp only
      split_ifs <;> exact encodable_of_ascii (by decide)
    · have hall := encodable_foldl_addReasonCode hreasons hcodes
      intro s hs
      have hs := (List.mem_insertionSort _).mp hs
      split_ifs at hs
      · exact encodable_addReasonCode hreasons (encodable_of_ascii (by decide)) s hs
      · exact encodable_addReasonCode hall (encodable_of_ascii (by decide)) s hs
      · exact hreasons s hs
      · exact hall s hs
    · rw [failedRules_parallel]
      refine List.forall_mem_map.mpr fun r hr => ?_
      obtain ⟨haxis, hid, -⟩ := haxes r (List.mem_filter.mp hr).1
      exact List.forall_mem_cons.mpr ⟨⟨encodable_axisKey, haxis⟩,
        List.forall_mem_singleton.mpr ⟨encodable_ruleIdKey, hid⟩⟩

/-! ### The two texts -/

theorem plain_texts {F : Type} (texts : List Str) :
    (Value.list (texts.map Value.str) : Value F).Plain := by
  rw [Value.Plain, plainList_iff, List.forall_mem_map]
  exact fun s _ => trivial

theorem plain_failedRules {F : Type} (rules : List FailedRule) :
    (Value.list (rules.map FailedRule.toDict) : Value F).Plain := by
  rw [Value.Plain, plainList_iff, List.forall_mem_map]
  intro rule _
  rw [FailedRule.toDict, Value.Plain, plainMembers_iff, List.forall_mem_map]
  exact fun m _ => ⟨rfl, trivial⟩

theorem plain_axes {F : Type} (axes : List GateAxisResult) :
    (Value.list (axes.map GateAxisResult.toDict) : Value F).Plain := by
  rw [Value.Plain, plainList_iff, List.forall_mem_map]
  intro r _
  exact ⟨rfl, trivial, rfl, trivial, rfl, trivial, rfl, trivial, trivial⟩

theorem plain_identityPayload (d : GateDecision) : (Value.dict (identityPayload P d)).Plain :=
  ⟨rfl, trivial, rfl, trivial, rfl, trivial, rfl, trivial, rfl, plain_texts _, rfl,
    plain_failedRules _, rfl, trivial, rfl, plain_axes _, trivial⟩

theorem plain_decisionPayload (d : GateDecision) : (Value.dict (decisionPayload P d)).Plain :=
  ⟨rfl, trivial, rfl, trivial, rfl, trivial, rfl, plain_texts _, rfl, plain_failedRules _, rfl,
    plain_axes _, rfl, trivial, rfl, trivial, trivial⟩

theorem mem_keys_of_dumpsSorted {ms ns : Members P.Float} (hms : NamedItems ms) (hns : NamedItems ns)
    {L : Layout} {t : Str} (h : dumpsSorted P L (.dict ms) = some t)
    (h' : dumpsSorted P L (.dict ns) = some t) {k : Key P.Float} (hk : k ∈ ms.map Prod.fst) :
    k ∈ ns.map Prod.fst := by
  have hread : ∀ {ms : Members P.Float}, NamedItems ms → dumpsSorted P L (.dict ms) = some t →
      ∃ es : Members P.Float, loads P t = some (.dict es) ∧
        (es.map Prod.fst).Perm (ms.map Prod.fst) := by
    intro ms hms h
    obtain ⟨w, hw, rfl⟩ := Option.map_eq_some_iff.mp h
    obtain ⟨ns, hns, -, rfl⟩ := (sortKeys_dict_eq_some P).mp hw
    have hkeys : ((sortMembers P ns).map Prod.fst).Perm (ms.map Prod.fst) := by
      rw [← map_fst_eq_of_sortKeysMembers P hns]
      exact (perm_sortMembers P ns).map Prod.fst
    have hnamed := hms.of_keys hkeys
    refine ⟨imageItems P (sortMembers P ns), ?_, ?_⟩
    · rw [loads_dumps, image_dict_of_isString P (fun m hm => hnamed.isString hm) hnamed.nodup]
    · have hfst : (imageItems P (sortMembers P ns)).map Prod.fst = (sortMembers P ns).map Prod.fst := by
        rw [imageItems, List.map_map]
        rfl
      rw [hfst]
      exact hkeys
  obtain ⟨es, hes, hperm⟩ := hread hms h
  obtain ⟨es', hes', hperm'⟩ := hread hns h'
  have heq : es = es' := Value.dict.inj (Option.some.inj (hes.symm.trans hes'))
  rw [← hperm'.mem_iff, ← heq, hperm.mem_iff]
  exact hk

theorem texts_ne {d d' : GateDecision} {t t' : Str}
    (ht : dumpsSorted P .compact (.dict (identityPayload P d)) = some t)
    (ht' : dumpsSorted P .compact (.dict (decisionPayload P d')) = some t') : t ≠ t' := by
  rintro rfl
  have hidentity : NamedItems (identityPayload P d) := .of_names
    [str "approved", str "decision", str "mutation_id", str "trust_mode", str "reason_codes",
      str "failed_rules", str "human_override", str "axis_results"] rfl (by decide) (by decide)
  have hdecision : NamedItems (decisionPayload P d') := .of_names
    [str "mutation_id", str "trust_mode", str "approved", str "reason_codes", str "failed_rules",
      str "axis_results", str "human_override", str "gate_version"] rfl (by decide) (by decide)
  have hmem := mem_keys_of_dumpsSorted hidentity hdecision ht ht' (k := .str (str "decision"))
    (List.mem_cons_of_mem _ List.mem_cons_self)
  have hkeys : (decisionPayload P d').map Prod.fst = List.map Key.str [str "mutation_id",
      str "trust_mode", str "approved", str "reason_codes", str "failed_rules", str "axis_results",
      str "human_override", str "gate_version"] := rfl
  rw [hkeys] at hmem
  obtain ⟨k, hk, heq⟩ := List.mem_map.mp hmem
  rw [Key.str.inj heq] at hk
  exact absurd hk (by decide)

theorem prefixedDigest_of_plain {v : P.Obj} (hv : v.Plain) :
    ∃ t, dumpsSorted P .compact v = some t ∧ (Encodable t ↔ Encodable v.chars) ∧
      prefixedDigest P .compact v = (sha256Text P t).map (str "sha256:" ++ ·) := by
  obtain ⟨w, hw⟩ := exists_sortKeys P hv
  have ht : dumpsSorted P .compact v = some (dumps P .compact w) := by
    rw [dumpsSorted, hw]
    rfl
  refine ⟨_, ht, ?_, ?_⟩
  · rw [encodable_dumps_iff]
    exact ⟨fun h c hc => h c ((mem_chars_sortKeys P hw).mpr hc),
      fun h c hc => h c ((mem_chars_sortKeys P hw).mp hc)⟩
  · unfold prefixedDigest
    rw [ht]

/-! ### The two forms -/

theorem sha256Text_map (t : Str) :
    (∃ b, encode t = some b ∧ (sha256Text P t).map (str "sha256:" ++ ·) =
        .ok (str "sha256:" ++ P.sha256 b)) ∨
      (¬ Encodable t ∧ (sha256Text P t).map (str "sha256:" ++ ·) = .error .unicodeEncodeError) := by
  unfold sha256Text
  cases hb : encode t with
  | none =>
    right
    refine ⟨fun h => ?_, rfl⟩
    obtain ⟨b, hb'⟩ := exists_encode_iff.mpr h
    rw [hb] at hb'
    cases hb'
  | some b => exact .inl ⟨b, rfl, rfl⟩

theorem decision_encodable (policy : LawPolicy) (q : GateRequest) :
    Encodable (serialDecision policy q).decision ∧ Encodable (parallelDecision policy q).decision := by
  constructor
  · unfold serialDecision enforceLaw
    dsimp only
    split_ifs <;> exact encodable_of_ascii (by decide)
  · unfold parallelDecision
    dsimp only
    split_ifs <;> exact encodable_of_ascii (by decide)

/-- The two forms agree exactly where a text of the request has no bytes, so that both raise, or
where every failing axis is enforced and the two texts that are hashed collide. -/
theorem agrees_iff (P : Platform) (policy : LawPolicy) (q : GateRequest) :
    (approveMutation P policy q .parallel).map GateDecision.summary =
        (approveMutation P policy q .serial).map GateDecision.summary ↔
      ¬ Writable q ∨ (AllEnforced policy q ∧ Collides P policy q) := by
  obtain ⟨hserial, hparallel⟩ := decision_encodable policy q
  obtain ⟨t, ht, hencodable, hdigest⟩ :=
    prefixedDigest_of_plain (plain_identityPayload (P := P) (serialDecision policy q))
  obtain ⟨t', ht', hencodable', hdigest'⟩ :=
    prefixedDigest_of_plain (plain_decisionPayload (P := P) (parallelDecision policy q))
  rw [(encodable_payloads hserial).1, written_serial_iff] at hencodable
  rw [(encodable_payloads hparallel).2, written_parallel_iff] at hencodable'
  rcases sha256Text_map (P := P) t' with ⟨b', hb', hok'⟩ | ⟨hnot, herror⟩
  · have hwritable : Writable q := hencodable'.mp (exists_encode_iff.mp ⟨b', hb'⟩)
    rcases sha256Text_map (P := P) t with ⟨b, hb, hok⟩ | ⟨hnot, -⟩
    · have hrun : approveSerial P policy q =
          .ok { serialDecision policy q with decisionId := str "sha256:" ++ P.sha256 b } := by
        unfold approveSerial
        dsimp only
        rw [hdigest, hok]
        rfl
      have hrun' : approveParallel P policy q =
          .ok { parallelDecision policy q with decisionId := str "sha256:" ++ P.sha256 b' } := by
        unfold approveParallel
        dsimp only
        rw [hdigest', hok']
        rfl
      have hforms : (approveMutation P policy q .parallel).map GateDecision.summary =
            (approveMutation P policy q .serial).map GateDecision.summary ↔
          (parallelDecision policy q).approved = (serialDecision policy q).approved ∧
            (parallelDecision policy q).failedRuleIds = (serialDecision policy q).failedRuleIds ∧
            P.sha256 b' = P.sha256 b := by
        unfold approveMutation
        rw [hrun, hrun']
        show Except.ok (_, _, _) = Except.ok (_, _, _) ↔ _
        rw [Except.ok.injEq, Prod.mk.injEq, Prod.mk.injEq]
        exact and_congr_right fun _ => and_congr_right fun _ => List.append_right_inj _
      rw [hforms, failedRuleIds_eq_iff, or_iff_right (not_not.mpr hwritable)]
      constructor
      · rintro ⟨-, henforced, hsame⟩
        exact ⟨henforced, t, t', b, b', ht, ht', hb, hb', texts_ne ht ht', hsame.symm⟩
      · rintro ⟨henforced, t₁, t₁', b₁, b₁', ht₁, ht₁', hb₁, hb₁', -, hsame⟩
        obtain rfl := Option.some.inj (ht.symm.trans ht₁)
        obtain rfl := Option.some.inj (ht'.symm.trans ht₁')
        obtain rfl := Option.some.inj (hb.symm.trans hb₁)
        obtain rfl := Option.some.inj (hb'.symm.trans hb₁')
        refine ⟨?_, henforced, hsame.symm⟩
        rw [approved_parallel, approved_serial, failedRuleIds_eq_iff.mpr henforced]
    · exact absurd (hencodable.mpr hwritable) hnot
  · have hnotWritable : ¬ Writable q := fun h => hnot (hencodable'.mpr h)
    have hrun' : approveParallel P policy q = .error .unicodeEncodeError := by
      unfold approveParallel
      dsimp only
      rw [hdigest', herror]
      rfl
    refine iff_of_true ?_ (.inl hnotWritable)
    unfold approveMutation
    rw [hrun']

/-! ### An advisory rule -/

/-- The rule `R` is advisory. -/
def advisoryPolicy : LawPolicy :=
  [(str "R", { enabled := true, severity := str "advisory" })]

def failingRequest : GateRequest where
  mutationId := str "m"
  trustMode := str "standard"
  axisResults := [{ axis := str "a", ruleId := str "R", ok := false, reason := str "no" }]
  humanOverride := false

/-- The serial gate approves what the parallel one rejects. -/
theorem not_agrees_failingRequest :
    (approveMutation reference advisoryPolicy failingRequest .parallel).map GateDecision.summary ≠
      (approveMutation reference advisoryPolicy failingRequest .serial).map GateDecision.summary := by
  decide +kernel

end Adaad.GovernanceGate
