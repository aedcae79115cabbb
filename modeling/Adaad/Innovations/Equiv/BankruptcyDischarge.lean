import Adaad.Innovations.Equiv.BankruptcyLedger
import Adaad.Py.Reference
import Adaad.Run

/-!
# The discharge of a bankruptcy

The streak counts reports, and not epochs, and an entry for the empty epoch is not loaded.  Where every
bankruptcy is of a named epoch, and no clean report is of an epoch that the streak has counted, a
bankruptcy ends only after as many clean epochs in a row as it requires, restarts do not end it, no
discharged epoch is active again and the chain is valid (`meets_lawful`).
-/

namespace Adaad.Innovations.Bankruptcy

open Py

variable {P : Platform} {fmt : Formats P}

/-! ### What was reported -/

variable (P) in
/-- What a protocol has lived through since a declaration. -/
inductive Remark where
  | reported (epochId : Str) (healthScore : Number P)
  | restarted

/-- The epochs of the reports since the last one that was not clean, the latest first. -/
def cleanEpochs (target : Number P) : List (Remark P) → List Str
  | [] => []
  | .reported epochId healthScore :: rest =>
    if healthScore.ge target then epochId :: cleanEpochs target rest else []
  | .restarted :: rest => cleanEpochs target rest

/-- The epochs that the streak has counted: a restart begins it again. -/
def countedEpochs (target : Number P) : List (Remark P) → List Str
  | [] => []
  | .reported epochId healthScore :: rest =>
    if healthScore.ge target then epochId :: countedEpochs target rest else []
  | .restarted :: _ => []

/-- The latest epochs are different, and as many as are required. -/
def Earned (required : Int) (epochs : List Str) : Prop :=
  ∃ recent, recent <+: epochs ∧ recent.Nodup ∧ required ≤ recent.length

theorem countedEpochs_prefix (target : Number P) (remarks : List (Remark P)) :
    countedEpochs target remarks <+: cleanEpochs target remarks := by
  fun_induction countedEpochs target remarks with
  | case1 => exact List.prefix_rfl
  | case2 epochId healthScore rest hclean ih =>
    rw [cleanEpochs, if_pos hclean]
    exact (List.prefix_cons_inj epochId).mpr ih
  | case3 epochId healthScore rest hclean => exact List.nil_prefix
  | case4 => exact List.nil_prefix

/-! ### Runs -/

/-- The action is a report that ends the bankruptcy. -/
def Protocol.discharges (fmt : Formats P) (p : Protocol P) : Action P → Bool
  | .record epochId healthScore =>
    match (p.recordRemediationEpoch fmt epochId healthScore).1 with
    | .ok discharged => discharged
    | .error _ => false
  | .evaluate _ _ _ => false
  | .recreate => false

theorem discharges_record {p p' : Protocol P} {epochId : Str} {healthScore : Number P} {b : Bool}
    (h : p.recordRemediationEpoch fmt epochId healthScore = (.ok b, p')) :
    p.discharges fmt (.record epochId healthScore) = b := by
  unfold Protocol.discharges
  dsimp only
  rw [h]

variable (P) in
/-- A protocol, with what was reported since the last declaration and the epochs whose bankruptcy has
ended. -/
structure Watched where
  protocol : Protocol P
  remarks : List (Remark P)
  ended : List Str

namespace Watched

/-- A protocol whose ledger does not exist yet. -/
def new (config : Config P) : Watched P :=
  ⟨Protocol.new config, [], []⟩

def remarksAfter (s : Watched P) : Action P → List (Remark P)
  | .evaluate _ _ _ => if s.protocol.inBankruptcy then s.remarks else []
  | .record epochId healthScore => .reported epochId healthScore :: s.remarks
  | .recreate => .restarted :: s.remarks

def step (fmt : Formats P) (s : Watched P) (a : Action P) : Watched P where
  protocol := s.protocol.step fmt a
  remarks := s.remarksAfter a
  ended :=
    if s.protocol.discharges fmt a then
      (s.protocol.activeDeclaration.map BankruptcyDeclaration.epochId).toList ++ s.ended
    else s.ended

end Watched

/-- What a step owes: a bankruptcy is discharged only after the clean epochs that it requires, it lasts
until it is discharged, no epoch whose bankruptcy has ended is active again, and the chain is valid. -/
structure Lawful (fmt : Formats P) (s : Watched P) (a : Action P) : Prop where
  earned : s.protocol.discharges fmt a = true → ∀ decl, s.protocol.activeDeclaration = some decl →
    Earned decl.requiredCleanEpochs
      (cleanEpochs decl.remediationTargetHealth (s.step fmt a).remarks)
  lasting : s.protocol.inBankruptcy = true → s.protocol.discharges fmt a = false →
    (s.step fmt a).protocol.inBankruptcy = true
  final : ∀ decl, (s.step fmt a).protocol.activeDeclaration = some decl →
    decl.epochId ∉ (s.step fmt a).ended
  verified : (s.step fmt a).protocol.verifyChain fmt = .ok .valid

/-- A bankruptcy is declared for a named epoch only, and a clean report is of an epoch that the streak
has not counted. -/
def Admitted (s : Watched P) : Action P → Prop
  | .evaluate epochId debtScore _ => s.protocol.inBankruptcy = false →
      debtScore.ge s.protocol.config.bankruptcyThreshold = true → epochId ≠ []
  | .record epochId healthScore => s.protocol.inBankruptcy = true →
      healthScore.ge s.protocol.config.remediationHealthTarget = true →
        epochId ∉ countedEpochs s.protocol.config.remediationHealthTarget s.remarks
  | .recreate => True

/-- The protocol is what its ledger says, and the streak what the remarks say. -/
structure Tracked (fmt : Formats P) (s : Watched P) : Prop where
  written : ∃ events, Written fmt events s.protocol
  counted : s.protocol.inBankruptcy = true → s.protocol.cleanEpochStreak =
    (countedEpochs s.protocol.config.remediationHealthTarget s.remarks).length
  distinct : s.protocol.inBankruptcy = true →
    (countedEpochs s.protocol.config.remediationHealthTarget s.remarks).Nodup
  idle : s.protocol.inBankruptcy = false → s.protocol.cleanEpochStreak = 0
  ended : ∀ id ∈ s.ended, id ∈ s.protocol.dischargedEpochIds

namespace Tracked

variable {s : Watched P}

theorem new (config : Config P) : Tracked fmt (Watched.new config) where
  written := ⟨[], Written.new config⟩
  counted h := by cases h
  distinct h := by cases h
  idle _ := rfl
  ended := List.forall_mem_nil _

theorem notMem_ended (h : Tracked fmt s) {decl : BankruptcyDeclaration P}
    (hactive : s.protocol.activeDeclaration = some decl) : decl.epochId ∉ s.ended := by
  obtain ⟨events, hw⟩ := h.written
  have hopened : s.protocol.opened = some { decl with status := Status.active.value } := by
    unfold Protocol.opened
    rw [hactive, Option.map_some]
  have hne : Status.active.value ≠ Status.discharged.value := by decide
  intro hended
  obtain ⟨decl', hlookup, hdone⟩ := (hw.discharged _).mp (h.ended _ hended)
  have hentry := hw.opened _ hopened
  obtain rfl := Option.some.inj (hentry.symm.trans hlookup)
  exact hne hdone

theorem verified (h : Tracked fmt s) : s.protocol.verifyChain fmt = .ok .valid := by
  obtain ⟨events, hw⟩ := h.written
  exact hw.verifyChain_eq

theorem lawful_of_lasting {a : Action P} (h : Tracked fmt (s.step fmt a))
    (hnot : s.protocol.discharges fmt a = false)
    (hlasting : s.protocol.inBankruptcy = true → (s.step fmt a).protocol.inBankruptcy = true) :
    Lawful fmt s a where
  earned htrue := by
    rw [hnot] at htrue
    cases htrue
  lasting hp _ := hlasting hp
  final _ hactive := h.notMem_ended hactive
  verified := h.verified

theorem step_of_evaluate (h : Tracked fmt s) {epochId : Str} {debtScore healthScore : Number P}
    (ha : Admitted s (.evaluate epochId debtScore healthScore)) :
    Tracked fmt (s.step fmt (.evaluate epochId debtScore healthScore)) ∧
      Lawful fmt s (.evaluate epochId debtScore healthScore) := by
  obtain ⟨events, hw⟩ := h.written
  -- the protocol is left as it is, or a bankruptcy is declared
  have hcases : (s.protocol.evaluate fmt epochId debtScore healthScore).2 = s.protocol ∨
      s.protocol.inBankruptcy = false ∧ ∃ decl events',
        (s.protocol.evaluate fmt epochId debtScore healthScore).2 =
          s.protocol.persistEvent decl (some decl) ∧
        Written fmt events' (s.protocol.persistEvent decl (some decl)) := by
    unfold Protocol.evaluate
    split_ifs with hid hp hdebt
    · exact .inl rfl
    · exact .inl rfl
    · cases hdeclare : s.protocol.declare fmt epochId debtScore healthScore with
      | error e => exact .inl rfl
      | ok decl =>
        have hp := Bool.eq_false_iff.mpr hp
        exact .inr ⟨hp, decl, _, rfl,
          hw.declared hp hid (ha hp hdebt) (Written.declared_of_declare hdeclare)⟩
    · exact .inl rfl
  have htracked : Tracked fmt (s.step fmt (.evaluate epochId debtScore healthScore)) := by
    rcases hcases with hsame | ⟨hp, decl, events', hdecl, hw'⟩
    · unfold Watched.step Protocol.step Watched.remarksAfter
      dsimp only
      rw [hsame]
      refine ⟨h.written, fun hp => ?_, fun hp => ?_, h.idle, h.ended⟩
      · rw [if_pos hp]
        exact h.counted hp
      · rw [if_pos hp]
        exact h.distinct hp
    · unfold Watched.step Protocol.step Watched.remarksAfter
      dsimp only
      rw [hdecl, hp, if_neg Bool.false_ne_true]
      exact ⟨⟨events', hw'⟩, fun _ => h.idle hp, fun _ => List.nodup_nil,
        fun _ => h.idle hp, h.ended⟩
  refine ⟨htracked, htracked.lawful_of_lasting rfl fun hp => ?_⟩
  rcases hcases with hsame | ⟨hp', -⟩
  · show (s.protocol.evaluate fmt epochId debtScore healthScore).2.inBankruptcy = true
    rw [hsame]
    exact hp
  · rw [hp] at hp'
    cases hp'

theorem step_of_recreate (h : Tracked fmt s) :
    Tracked fmt (s.step fmt .recreate) ∧ Lawful fmt s .recreate := by
  obtain ⟨events, hw⟩ := h.written
  have hstep : s.protocol.step fmt .recreate =
      { s.protocol with activeDeclaration := s.protocol.opened, cleanEpochStreak := 0 } := by
    unfold Protocol.step
    rw [hw.load_eq]
  have htracked : Tracked fmt (s.step fmt .recreate) := by
    unfold Watched.step
    rw [hstep]
    exact ⟨⟨events, hw.recreate⟩, fun _ => rfl, fun _ => List.nodup_nil, fun _ => rfl, h.ended⟩
  refine ⟨htracked, htracked.lawful_of_lasting rfl fun hp => ?_⟩
  obtain ⟨decl, hactive⟩ := hw.inBankruptcy_iff.mp hp
  have hw' : Written fmt events (s.step fmt .recreate).protocol := by
    show Written fmt events (s.protocol.step fmt .recreate)
    rw [hstep]
    exact hw.recreate
  refine hw'.inBankruptcy_iff.mpr ⟨{ decl with status := Status.active.value }, ?_⟩
  show (s.protocol.step fmt .recreate).activeDeclaration = _
  rw [hstep]
  unfold Protocol.opened
  dsimp only
  rw [hactive, Option.map_some]

theorem reported_eq (h : Tracked fmt s) (hp : s.protocol.inBankruptcy = true)
    (decl : BankruptcyDeclaration P) (epochId : Str) (healthScore : Number P) :
    (s.protocol.reported decl healthScore).1 =
      (countedEpochs s.protocol.config.remediationHealthTarget
        (.reported epochId healthScore :: s.remarks)).length := by
  unfold Protocol.reported
  rw [countedEpochs]
  split_ifs with hclean
  · rw [List.length_cons, h.counted hp, Nat.cast_add, Nat.cast_one]
  · rfl

theorem nodup_reported (h : Tracked fmt s) (hp : s.protocol.inBankruptcy = true) {epochId : Str}
    {healthScore : Number P} (ha : Admitted s (.record epochId healthScore)) :
    (countedEpochs s.protocol.config.remediationHealthTarget
      (.reported epochId healthScore :: s.remarks)).Nodup := by
  rw [countedEpochs]
  split_ifs with hclean
  · exact List.nodup_cons.mpr ⟨ha hp hclean, h.distinct hp⟩
  · exact List.nodup_nil

theorem step_of_record (h : Tracked fmt s) {epochId : Str} {healthScore : Number P}
    (ha : Admitted s (.record epochId healthScore)) :
    Tracked fmt (s.step fmt (.record epochId healthScore)) ∧
      Lawful fmt s (.record epochId healthScore) := by
  obtain ⟨events, hw⟩ := h.written
  cases hactive : s.protocol.activeDeclaration with
  | none =>
    have hp : s.protocol.inBankruptcy = false := by
      unfold Protocol.inBankruptcy
      rw [hactive]
      rfl
    have hsame : s.protocol.recordRemediationEpoch fmt epochId healthScore =
        (.ok false, s.protocol) := by
      unfold Protocol.recordRemediationEpoch
      rw [hactive]
    have hnot : s.protocol.discharges fmt (.record epochId healthScore) = false :=
      discharges_record hsame
    have htracked : Tracked fmt (s.step fmt (.record epochId healthScore)) := by
      unfold Watched.step Protocol.step Watched.remarksAfter
      dsimp only
      rw [hnot, hsame, if_neg Bool.false_ne_true]
      dsimp only
      refine ⟨h.written, fun hp' => ?_, fun hp' => ?_, h.idle, h.ended⟩
      · exact absurd (hp'.symm.trans hp) Bool.noConfusion
      · exact absurd (hp'.symm.trans hp) Bool.noConfusion
    refine ⟨htracked, htracked.lawful_of_lasting hnot fun hp' => ?_⟩
    exact absurd (hp'.symm.trans hp) Bool.noConfusion
  | some decl =>
    have hp : s.protocol.inBankruptcy = true := hw.inBankruptcy_iff.mpr ⟨decl, hactive⟩
    have hcount := h.reported_eq hp decl epochId healthScore
    have hnodup := h.nodup_reported hp ha
    obtain ⟨p', events', hw', hconfig, ⟨hcall, hp', hstreak, hids⟩ |
      ⟨hcall, hstreak, hnone, hzero, hids⟩⟩ := hw.record hactive epochId healthScore
    · have hnot : s.protocol.discharges fmt (.record epochId healthScore) = false :=
        discharges_record hcall
      have hprotocol : (s.step fmt (.record epochId healthScore)).protocol = p' := by
        show (s.protocol.recordRemediationEpoch fmt epochId healthScore).2 = p'
        rw [hcall]
      have hended : (s.step fmt (.record epochId healthScore)).ended = s.ended := by
        unfold Watched.step
        dsimp only
        rw [hnot, if_neg Bool.false_ne_true]
      have htracked : Tracked fmt (s.step fmt (.record epochId healthScore)) := by
        refine ⟨?_, ?_, ?_, ?_, ?_⟩
        · rw [hprotocol]
          exact ⟨events', hw'⟩
        · rw [hprotocol, hconfig]
          exact fun _ => hstreak.trans hcount
        · rw [hprotocol, hconfig]
          exact fun _ => hnodup
        · rw [hprotocol]
          exact fun hno => absurd (hno.symm.trans hp') Bool.noConfusion
        · rw [hprotocol, hended, hids]
          exact h.ended
      exact ⟨htracked, htracked.lawful_of_lasting hnot fun _ => hprotocol ▸ hp'⟩
    · have hends : s.protocol.discharges fmt (.record epochId healthScore) = true :=
        discharges_record hcall
      have hprotocol : (s.step fmt (.record epochId healthScore)).protocol = p' := by
        show (s.protocol.recordRemediationEpoch fmt epochId healthScore).2 = p'
        rw [hcall]
      have hended : (s.step fmt (.record epochId healthScore)).ended = decl.epochId :: s.ended := by
        unfold Watched.step
        dsimp only
        rw [hends, if_pos rfl, hactive]
        rfl
      have hno : p'.inBankruptcy = false := by
        unfold Protocol.inBankruptcy
        rw [hnone]
        rfl
      have htracked : Tracked fmt (s.step fmt (.record epochId healthScore)) := by
        refine ⟨?_, ?_, ?_, ?_, ?_⟩
        · rw [hprotocol]
          exact ⟨events', hw'⟩
        · rw [hprotocol]
          exact fun hp' => absurd (hp'.symm.trans hno) Bool.noConfusion
        · rw [hprotocol]
          exact fun hp' => absurd (hp'.symm.trans hno) Bool.noConfusion
        · rw [hprotocol]
          exact fun _ => hzero
        · rw [hprotocol, hended, hids]
          refine List.forall_mem_cons.mpr ⟨Finset.mem_insert_self _ _, fun id hid => ?_⟩
          exact Finset.mem_insert_of_mem (h.ended id hid)
      refine ⟨htracked, fun _ decl' hdecl' => ?_, fun _ hnot => ?_, ?_, htracked.verified⟩
      · obtain rfl := Option.some.inj (hactive.symm.trans hdecl')
        obtain ⟨hrequired, htarget⟩ := hw.terms decl hactive
        rw [hrequired, htarget]
        exact ⟨_, countedEpochs_prefix _ _, hnodup, hstreak.trans_eq hcount⟩
      · rw [hends] at hnot
        cases hnot
      · exact fun decl' hdecl' => htracked.notMem_ended hdecl'

end Tracked

/-- Where every step is admitted, a bankruptcy is discharged as it has to be. -/
theorem meets_lawful (fmt : Formats P) (config : Config P) (actions : List (Action P))
    (h : Run.Meets (Watched.step fmt) Admitted (Watched.new config) actions) :
    Run.Meets (Watched.step fmt) (Lawful fmt) (Watched.new config) actions := by
  refine h.of_step (J := Tracked fmt) (fun s a hs ha => ?_) (Tracked.new config)
  cases a with
  | evaluate epochId debtScore healthScore => exact hs.step_of_evaluate ha
  | record epochId healthScore => exact hs.step_of_record ha
  | recreate => exact hs.step_of_recreate

/-! ### A protocol that requires two epochs -/

def integerFormats : Formats comparingReference where
  round _ x := x
  fixed n x := some (toStr comparingReference x.toObj ++ 46 :: List.replicate n 48)
  ascii_fixed n x s h := by
    obtain rfl := Option.some.inj h
    refine List.forall_mem_append.mpr ⟨Number.ascii_toStr x, List.forall_mem_cons.mpr
      ⟨by decide, fun c hc => ?_⟩⟩
    rw [List.eq_of_mem_replicate hc]
    decide

def twoEpochs : Config comparingReference where
  bankruptcyThreshold := .inr (LiteralFloat.ofText (.lit ⟨false, str "0", str "9", none⟩))
  remediationHealthTarget := .inr (LiteralFloat.ofText (.lit ⟨false, str "0", str "65", none⟩))
  remediationCleanStreak := 2
  inRange := by decide
  attainable := by decide

/-- A bankruptcy that is discharged after two epochs and a restart. -/
def twoDifferentEpochs : List (Action comparingReference) :=
  [.evaluate (str "epoch-1") (.inl 1) (.inl 0), .recreate, .record (str "epoch-2") (.inl 1),
    .record (str "epoch-3") (.inl 1)]

theorem meets_lawful_twoDifferentEpochs :
    Run.Meets (Watched.step integerFormats) (Lawful integerFormats) (Watched.new twoEpochs)
      twoDifferentEpochs := by
  refine meets_lawful integerFormats twoEpochs twoDifferentEpochs
    ⟨fun _ _ => ?_, trivial, fun _ _ => ?_, fun _ _ => ?_, trivial⟩
  · decide
  · decide +kernel
  · decide +kernel

/-- A bankruptcy is declared, and one clean epoch is reported twice. -/
def sameEpochTwice : List (Action comparingReference) :=
  [.evaluate (str "epoch-1") (.inl 1) (.inl 0), .record (str "epoch-2") (.inl 1),
    .record (str "epoch-2") (.inl 1)]

/-- One epoch discharges a bankruptcy that requires two. -/
theorem not_meets_lawful : ¬ ∀ (fmt : Formats comparingReference)
    (config : Config comparingReference) (actions : List (Action comparingReference)),
    Run.Meets (Watched.step fmt) (Lawful fmt) (Watched.new config) actions := by
  intro h
  obtain ⟨-, -, hlawful, -⟩ := h integerFormats twoEpochs sameEpochTwice
  have hends : (Run.run (Watched.step integerFormats) (Watched.new twoEpochs)
      (sameEpochTwice.take 2)).protocol.discharges integerFormats
        (.record (str "epoch-2") (.inl 1)) = true := by decide +kernel
  have hactive : (Run.run (Watched.step integerFormats) (Watched.new twoEpochs)
      (sameEpochTwice.take 2)).protocol.activeDeclaration.map (fun decl =>
        (decl.requiredCleanEpochs, cleanEpochs decl.remediationTargetHealth
          (Run.run (Watched.step integerFormats) (Watched.new twoEpochs) sameEpochTwice).remarks)) =
      some (2, [str "epoch-2", str "epoch-2"]) := by decide +kernel
  obtain ⟨decl, hdecl, hboth⟩ := Option.map_eq_some_iff.mp hactive
  obtain ⟨hrequired, hepochs⟩ := Prod.mk.inj hboth
  obtain ⟨recent, hbegins, hnodup, hle⟩ := hlawful.earned hends decl hdecl
  have hbegins : recent <+: [str "epoch-2", str "epoch-2"] := hepochs ▸ hbegins
  rw [hrequired] at hle
  have hlength : [str "epoch-2", str "epoch-2"].length ≤ recent.length := by
    rw [List.length_cons, List.length_singleton]
    omega
  rw [hbegins.eq_of_length_le hlength] at hnodup
  exact absurd hnodup (by decide)

end Adaad.Innovations.Bankruptcy
