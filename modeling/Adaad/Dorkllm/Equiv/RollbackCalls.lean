import Adaad.Dorkllm.AmendmentRollback
import Adaad.Py.TextFile

/-!
# A call of the amendment rollback

What a turn of the loop does (`rollbackCandidate_cases`), the loop (`rollbackCandidates_spec`) and a
call (`attempt_spec`): the records with status `ROLLED_BACK` are of different executions, none of
which has such a record yet, and the constitution that is written after them has the inverses of
just these.
-/

namespace Adaad.AmendmentRollback

open Py

variable {P : Platform} {s : Store P} {e : Env} {trigger triggerDetail : Str} {d : Draws}
  {candidate : Candidate P} {candidates : List (Candidate P)} {b b' : Batch P}
  {draws : Nat → Draws} {ws ws' : List (Write P)} {res : Except Exc Unit}
  {caeLedger : List (Candidate P)}

/-! ### Writes -/

/-- A line of one of the two ledgers; the digest of a record is written in ASCII. -/
def Write.IsLine : Write P → Prop
  | .record r => ∀ c ∈ r.digest, c < 128
  | .rejected _ => True
  | _ => False

/-- The record of a write to the rollback ledger. -/
def Write.record? : Write P → Option RollbackRecord
  | .record r => some r
  | _ => none

def Write.isReplace : Write P → Bool
  | .replace => true
  | _ => false

/-- The records that are written to the rollback ledger. -/
def recordsOf (ws : List (Write P)) : List RollbackRecord :=
  ws.filterMap Write.record?

/-- The executions that are recorded as rolled back. -/
def rolledBackBy (ws : List (Write P)) : List Str :=
  getRolledBackExecutionIds (recordsOf ws)

/-- The entries of the constitution in a store. -/
def Store.invariants (s : Store P) : List (Str × Members P.Float) :=
  (s.constitution.map Constitution.invariants).getD []

theorem getRolledBackExecutionIds_append (ledger ledger' : List RollbackRecord) :
    getRolledBackExecutionIds (ledger ++ ledger') =
      getRolledBackExecutionIds ledger ++ getRolledBackExecutionIds ledger' := by
  unfold getRolledBackExecutionIds
  rw [List.filter_append, List.map_append]

theorem rolledBackBy_append (ws ws' : List (Write P)) :
    rolledBackBy (ws ++ ws') = rolledBackBy ws ++ rolledBackBy ws' := by
  unfold rolledBackBy recordsOf
  rw [List.filterMap_append, getRolledBackExecutionIds_append]

theorem ledger_after (s : Store P) (ws : List (Write P)) :
    (Writes.after Store.write s ws).ledger = s.ledger ++ recordsOf ws := by
  induction ws generalizing s with
  | nil => exact (List.append_nil _).symm
  | cons w ws ih =>
    rw [Writes.after_cons, ih]
    cases w with
    | record r => exact List.append_assoc s.ledger [r] (recordsOf ws)
    | _ => rfl

theorem constitution_after (h : ∀ w ∈ ws, w.isReplace = false) :
    (Writes.after Store.write s ws).constitution = s.constitution := by
  refine Writes.after_frame fun s' w hw => ?_
  cases w with
  | replace => cases h _ hw
  | _ => rfl

theorem Write.IsLine.isReplace {w : Write P} (h : w.IsLine) : w.isReplace = false := by
  cases w with
  | replace => exact h.elim
  | _ => rfl

/-! ### Turns -/

/-- The entries after the inverse of a candidate. -/
def undo (entries : List (Str × Members P.Float)) (c : Candidate P) : List (Str × Members P.Float) :=
  inverted entries c.invariantId c.action c.snapshotBefore

theorem recordAttempt_eq_ok {ledger : List RollbackRecord} {a : Attempt} {r : RollbackRecord}
    (h : recordAttempt P ledger a d = .ok r) :
    r.executionId = a.executionId ∧ r.status = a.status ∧ (Write.record r : Write P).IsLine := by
  unfold recordAttempt at h
  split at h
  · cases h
  · next r' hr' =>
    obtain ⟨-, -, rfl⟩ := map_eq_ok.mp h
    obtain ⟨digest, hdigest, rfl⟩ := map_eq_ok.mp hr'
    refine ⟨rfl, rfl, ?_⟩
    unfold hmacHex at hdigest
    split at hdigest
    · cases hdigest
    · rw [← Except.ok.inj hdigest]
      exact ascii_sha256 P _

theorem rolledBackBy_record_of_ne {r : RollbackRecord} (h : r.status ≠ .rolledBack) :
    rolledBackBy [(.record r : Write P)] = [] := by
  show (List.filter _ [r]).map _ = []
  rw [List.filter_cons_of_neg (by simpa using h)]
  rfl

theorem rolledBackBy_record {r : RollbackRecord} (h : r.status = .rolledBack) :
    rolledBackBy [(.record r : Write P)] = [r.executionId] := by
  show (List.filter _ [r]).map _ = _
  rw [List.filter_cons_of_pos (by simpa using h)]
  rfl

/-- What a turn of the loop does: it raises and has written nothing; or it writes a record and rolls
nothing back; or it rolls the candidate back, which was not, and writes the record of that. -/
theorem rollbackCandidate_cases
    (h : rollbackCandidate s trigger triggerDetail d candidate b = (res, b')) :
    ((∃ exc, res = .error exc) ∧ b'.writes = b.writes) ∨
    (res = .ok () ∧ b'.constitution = b.constitution ∧
      b'.alreadyRolledBack = b.alreadyRolledBack ∧ b'.rolledBack = b.rolledBack ∧
      (candidate.executionId ∈ b.alreadyRolledBack ∨
        ∀ s ∈ candidate.status, s ∉ validCaeStatusesForRollback) ∧
      ∃ r, b'.writes = b.writes ++ [.record r] ∧ rolledBackBy [(.record r : Write P)] = [] ∧
        (Write.record r : Write P).IsLine) ∨
    (res = .ok () ∧ candidate.executionId ∉ b.alreadyRolledBack ∧
      b'.constitution.invariants = undo b.constitution.invariants candidate ∧
      b'.alreadyRolledBack = candidate.executionId :: b.alreadyRolledBack ∧
      b'.rolledBack = b.rolledBack + 1 ∧
      ∃ r, b'.writes = b.writes ++ [.record r] ∧
        rolledBackBy [(.record r : Write P)] = [candidate.executionId] ∧
        (Write.record r : Write P).IsLine) := by
  unfold rollbackCandidate at h
  by_cases hrolled : candidate.executionId ∈ b.alreadyRolledBack
  · simp only [if_pos hrolled] at h
    split at h
    · obtain ⟨rfl, rfl⟩ := Prod.mk.inj h
      exact .inl ⟨⟨_, rfl⟩, rfl⟩
    · next r hr =>
      obtain ⟨rfl, rfl⟩ := Prod.mk.inj h
      refine .inr (.inl ⟨rfl, rfl, rfl, rfl, .inl hrolled, r, rfl, ?_,
        (recordAttempt_eq_ok hr).2.2⟩)
      refine rolledBackBy_record_of_ne ?_
      rw [(recordAttempt_eq_ok hr).2.1]
      exact RollbackStatus.noConfusion
  simp only [if_neg hrolled] at h
  by_cases hstatus : (candidate.status.all fun s => decide (s ∉ validCaeStatusesForRollback)) = true
  · simp only [if_pos hstatus] at h
    split at h
    · obtain ⟨rfl, rfl⟩ := Prod.mk.inj h
      exact .inl ⟨⟨_, rfl⟩, rfl⟩
    · next r hr =>
      obtain ⟨rfl, rfl⟩ := Prod.mk.inj h
      refine .inr (.inl ⟨rfl, rfl, rfl, rfl, .inr ?_, r, rfl, ?_, (recordAttempt_eq_ok hr).2.2⟩)
      · intro s hs
        rw [Option.mem_def.mp hs] at hstatus
        exact of_decide_eq_true hstatus
      · refine rolledBackBy_record_of_ne ?_
        rw [(recordAttempt_eq_ok hr).2.1]
        exact RollbackStatus.noConfusion
  simp only [if_neg hstatus] at h
  split at h
  · obtain ⟨rfl, rfl⟩ := Prod.mk.inj h
    exact .inl ⟨⟨_, rfl⟩, rfl⟩
  · next r hr =>
    obtain ⟨rfl, rfl⟩ := Prod.mk.inj h
    obtain ⟨hid, hrstatus, hline⟩ := recordAttempt_eq_ok hr
    refine .inr (.inr ⟨rfl, hrolled, rfl, rfl, rfl, r, rfl, ?_, hline⟩)
    rw [rolledBackBy_record hrstatus, hid]

/-- What the loop does: it writes records; those of executions that are rolled back are of different
candidates that were not, and the entries change by the inverses of these. -/
theorem rollbackCandidates_spec
    (h : rollbackCandidates s trigger triggerDetail draws candidates b = (res, b')) :
    ∃ ws cs, b'.writes = b.writes ++ ws ∧ (∀ w ∈ ws, w.IsLine) ∧ List.Sublist cs candidates ∧
      rolledBackBy ws = cs.map Candidate.executionId ∧
      (cs.map Candidate.executionId).Nodup ∧ (∀ c ∈ cs, c.executionId ∉ b.alreadyRolledBack) ∧
      (res = .ok () → b'.constitution.invariants = cs.foldl undo b.constitution.invariants ∧
        b'.rolledBack = b.rolledBack + cs.length) := by
  induction candidates generalizing draws b with
  | nil =>
    obtain ⟨rfl, rfl⟩ := Prod.mk.inj h
    exact ⟨[], [], (List.append_nil _).symm, fun w hw => absurd hw List.not_mem_nil, .slnil, rfl,
      List.nodup_nil, fun c hc => absurd hc List.not_mem_nil, fun _ => ⟨rfl, rfl⟩⟩
  | cons candidate candidates ih =>
    rw [rollbackCandidates] at h
    rcases hturn : rollbackCandidate s trigger triggerDetail (draws 0) candidate b with ⟨res₁, b₁⟩
    rw [hturn] at h
    rcases rollbackCandidate_cases hturn with ⟨⟨exc, rfl⟩, hwrites⟩ |
      ⟨rfl, hc, halready, hcount, -, r, hwrites, hnone, hline⟩ |
      ⟨rfl, hnew, hc, halready, hcount, r, hwrites, hone, hline⟩
    · obtain ⟨rfl, rfl⟩ := Prod.mk.inj h
      exact ⟨[], [], by rw [hwrites, List.append_nil], fun w hw => absurd hw List.not_mem_nil,
        List.nil_sublist _, rfl, List.nodup_nil, fun c hc => absurd hc List.not_mem_nil,
        fun hok => (by cases hok)⟩
    · obtain ⟨ws, cs, hwrites', hlines, hsub, hids, hnodup, hfresh, hend⟩ := ih h
      refine ⟨.record r :: ws, cs, ?_, List.forall_mem_cons.mpr ⟨hline, hlines⟩, hsub.cons _, ?_,
        hnodup, halready ▸ hfresh, fun hok => ?_⟩
      · rw [hwrites', hwrites, List.append_assoc]
        rfl
      · rw [← List.singleton_append, rolledBackBy_append, hnone, hids]
        rfl
      · rw [← hc, ← hcount]
        exact hend hok
    · obtain ⟨ws, cs, hwrites', hlines, hsub, hids, hnodup, hfresh, hend⟩ := ih h
      refine ⟨.record r :: ws, candidate :: cs, ?_, List.forall_mem_cons.mpr ⟨hline, hlines⟩,
        hsub.cons_cons _, ?_, ?_, ?_, fun hok => ?_⟩
      · rw [hwrites', hwrites, List.append_assoc]
        rfl
      · rw [← List.singleton_append, rolledBackBy_append, hone, hids]
        rfl
      · refine List.nodup_cons.mpr ⟨fun hmem => ?_, hnodup⟩
        obtain ⟨c, hc, heq⟩ := List.mem_map.mp hmem
        refine hfresh c hc ?_
        rw [halready, heq]
        exact List.mem_cons_self
      · refine List.forall_mem_cons.mpr ⟨hnew, fun c hc hmem => hfresh c hc ?_⟩
        rw [halready]
        exact List.mem_cons_of_mem _ hmem
      · obtain ⟨hentries, hlength⟩ := hend hok
        rw [hc] at hentries
        refine ⟨hentries, ?_⟩
        rw [hlength, hcount, List.length_cons]
        omega

/-! ### Calls -/

/-- What is known of the lines that a call writes, and of the candidates that it rolls back. -/
structure Rollback (caeLedger : List (Candidate P)) (s : Store P) (ws : List (Write P))
    (cs : List (Candidate P)) : Prop where
  lines : ∀ w ∈ ws, w.IsLine
  recorded : ∀ c ∈ cs, c ∈ caeLedger
  ids : rolledBackBy ws = cs.map Candidate.executionId
  nodup : (cs.map Candidate.executionId).Nodup
  fresh : ∀ c ∈ cs, c.executionId ∉ getRolledBackExecutionIds s.ledger

/-- How a call ends: it raises, and has written lines; or it returns, and has rolled nothing back; or
it returns, and has written the constitution and the state after the lines. -/
inductive Ends (s : Store P) (ws : List (Write P)) (cs : List (Candidate P)) :
    Except Exc RollbackResult × List (Write P) → Prop
  | raises (exc : Exc) : Ends s ws cs (.error exc, ws)
  | nothing (result : RollbackResult) (h : cs = []) : Ends s ws cs (.ok result, ws)
  | writes (result : RollbackResult) (c : Constitution P) (state : RollbackState)
      (h : c.invariants = cs.foldl undo s.invariants) :
      Ends s ws cs (.ok result, ws ++ [.temporary c, .replace, .stateTemporary state, .stateReplace])

theorem invariants_loadConstitution : (loadConstitution s).invariants = s.invariants := by
  unfold loadConstitution Store.invariants
  cases s.constitution <;> rfl

theorem executeRollback_spec (hsub : ∀ c ∈ candidates, c ∈ caeLedger) :
    ∃ ws cs, Rollback caeLedger s ws cs ∧
      Ends s ws cs (executeRollback s e candidates trigger triggerDetail) := by
  unfold executeRollback
  rcases hloop : rollbackCandidates s trigger triggerDetail e.draws candidates
      { constitution := loadConstitution s
        alreadyRolledBack := getRolledBackExecutionIds s.ledger } with ⟨exc | ok, b⟩
  all_goals
    obtain ⟨ws, cs, hwrites, hlines, hcs, hids, hnodup, hfresh, hend⟩ :=
      rollbackCandidates_spec hloop
    rw [List.nil_append] at hwrites
    refine ⟨ws, cs, ⟨hlines, fun c hc => hsub c (hcs.subset hc), hids, hnodup, hfresh⟩, ?_⟩
  · rw [← hwrites]
    exact .raises exc
  · obtain ⟨hentries, hlength⟩ := hend rfl
    rw [invariants_loadConstitution] at hentries
    simp only
    rw [← hwrites]
    by_cases hpos : 0 < b.rolledBack
    · rw [if_pos hpos]
      exact .writes _ _ _ hentries
    · rw [if_neg hpos]
      exact .nothing _ (List.length_eq_zero_iff.mp (by omega))

theorem mem_of_mem_getRollbackCandidates {target : Option Str} {c : Candidate P}
    (h : c ∈ getRollbackCandidates caeLedger target) : c ∈ caeLedger :=
  (List.mem_filter.mp ((List.mem_insertionSort _).mp h)).1

theorem attempt_spec (format : FormatScsi P) (caeLedger : List (Candidate P)) (s : Store P) (e : Env)
    (request : Request P) :
    ∃ ws cs, Rollback caeLedger s ws cs ∧ Ends s ws cs (request.attempt format caeLedger s e) := by
  have hnone : ∀ ws : List (Write P), (∀ w ∈ ws, w.IsLine) → rolledBackBy ws = [] →
      Rollback caeLedger s ws [] := fun ws hlines hids =>
    ⟨hlines, fun c hc => absurd hc List.not_mem_nil, hids, List.nodup_nil,
      fun c hc => absurd hc List.not_mem_nil⟩
  have hnil := hnone [] (fun w hw => absurd hw List.not_mem_nil) rfl
  cases request with
  | auto snapshot =>
    rw [Request.attempt, runAuto]
    by_cases hcritical : snapshot.critical = false
    · rw [if_pos hcritical]
      exact ⟨[], [], hnil, .nothing _ rfl⟩
    · rw [if_neg hcritical]
      exact executeRollback_spec fun c hc =>
        mem_of_mem_getRollbackCandidates (List.mem_of_mem_take hc)
  | manual executionId human0Token =>
    rw [Request.attempt, runManual]
    by_cases htoken : human0Token = [] ∨ ¬ human0TriggerTokenPrefix <+: human0Token
    · simp only [if_pos htoken]
      split
      · exact ⟨[], [], hnil, .raises _⟩
      · refine ⟨_, [], hnone _ (fun w hw => ?_) rfl, .nothing _ rfl⟩
        rw [List.mem_singleton.mp hw]
        trivial
    · simp only [if_neg htoken]
      split_ifs
      · exact ⟨[], [], hnil, .nothing _ rfl⟩
      · exact executeRollback_spec fun c hc => mem_of_mem_getRollbackCandidates hc

theorem ascii_of_record_mem {cs : List (Candidate P)}
    {call : Except Exc RollbackResult × List (Write P)} (hrollback : Rollback caeLedger s ws cs)
    (hends : Ends s ws cs call) {r : RollbackRecord} (hr : .record r ∈ call.2) :
    ∀ c ∈ r.digest, c < 128 := by
  cases hends with
  | raises exc => exact hrollback.lines _ hr
  | nothing result hnil => exact hrollback.lines _ hr
  | writes result c state hentries =>
    rcases List.mem_append.mp hr with hr | hr
    · exact hrollback.lines _ hr
    · simp at hr

/-! ### Stops -/

/-- What the writes of a call that are done have done: they are a beginning of its records; or they
are all its records, and the constitution was replaced. -/
theorem done_spec {cs : List (Candidate P)} {call : Except Exc RollbackResult × List (Write P)}
    (hrollback : Rollback caeLedger s ws cs) (hends : Ends s ws cs call) (stop : Option Nat) :
    ((∀ w ∈ Writes.done stop call.2, w.isReplace = false) ∧
      rolledBackBy (Writes.done stop call.2) <+: cs.map Candidate.executionId ∧
      (Writes.after Store.write s (Writes.done stop call.2)).invariants = s.invariants) ∨
    ((∃ w ∈ Writes.done stop call.2, w.isReplace = true) ∧
      rolledBackBy (Writes.done stop call.2) = cs.map Candidate.executionId ∧
      (Writes.after Store.write s (Writes.done stop call.2)).invariants =
        cs.foldl undo s.invariants) := by
  have hprefix : ∀ {ws' ws'' : List (Write P)}, ws' <+: ws'' → rolledBackBy ws' <+: rolledBackBy ws'' :=
    fun h => ((h.filterMap _).filter _).map _
  have hbegin : ∀ ws', ws' <+: ws → (∀ w ∈ ws', w.isReplace = false) ∧
      rolledBackBy ws' <+: cs.map Candidate.executionId ∧
      (Writes.after Store.write s ws').invariants = s.invariants := by
    intro ws' hws'
    have hnot : ∀ w ∈ ws', w.isReplace = false := fun w hw =>
      (hrollback.lines w (hws'.subset hw)).isReplace
    refine ⟨hnot, hrollback.ids ▸ hprefix hws', ?_⟩
    rw [Store.invariants, constitution_after hnot, Store.invariants]
  cases hends with
  | raises exc => exact .inl (hbegin _ (Writes.done_prefix _ _))
  | nothing result hnil => exact .inl (hbegin _ (Writes.done_prefix _ _))
  | writes result c state hentries =>
    rcases Writes.done_cases stop ws (.temporary c) .replace
      [.stateTemporary state, .stateReplace] with hdone | ⟨rest, hrest, heq⟩
    · have hnot : ∀ w ∈ ws ++ [.temporary c], w.isReplace = false := by
        intro w hw
        rcases List.mem_append.mp hw with hw | hw
        · exact (hrollback.lines w hw).isReplace
        · rw [List.mem_singleton.mp hw]
          rfl
      have hnot := fun w hw => hnot w (hdone.subset hw)
      refine .inl ⟨hnot, ?_, ?_⟩
      · have := hprefix hdone
        rwa [rolledBackBy_append, hrollback.ids, show rolledBackBy [.temporary c] = [] from rfl,
          List.append_nil] at this
      · rw [Store.invariants, constitution_after hnot, Store.invariants]
    · simp only
      rw [heq]
      have hrest : ∀ w ∈ rest, w.isReplace = false ∧ w.record? = none := by
        intro w hw
        have hw := hrest.subset hw
        simp only [List.mem_cons, List.not_mem_nil, or_false] at hw
        rcases hw with rfl | rfl <;> exact ⟨rfl, rfl⟩
      refine .inr ⟨⟨.replace, List.mem_append_right _ (by simp), rfl⟩, ?_, ?_⟩
      · have hnil : rolledBackBy (.temporary c :: .replace :: rest) = [] := by
          show getRolledBackExecutionIds (recordsOf rest) = []
          rw [recordsOf, List.filterMap_eq_nil_iff.mpr fun w hw => (hrest w hw).2]
          rfl
        rw [rolledBackBy_append, hrollback.ids, hnil, List.append_nil]
      · rw [Writes.after_append, Writes.after_cons, Writes.after_cons, Store.invariants,
          constitution_after fun w hw => (hrest w hw).1]
        exact hentries

/-- What a call draws, where nothing depends on it. -/
def someEnv : Env :=
  ⟨fun _ => ⟨str "CAR-0123456789ABCDEF", by decide, str "2026-05-11T00:00:00+00:00", by decide,
    str "2026-05-11T00:00:00+00:00"⟩, str "2026-05-11T00:00:00+00:00",
    str "2026-05-11T00:00:00+00:00", str "2026-05-11T00:00:00+00:00"⟩

end Adaad.AmendmentRollback
