import Adaad.Federation.Equiv.Consensus
import Adaad.Py.Reference

/-!
# Correctness of the replicated log

* `log_kept`: in every run the entries are numbered by their places, their terms do not go down,
  the commit index is the last index of a committed entry, and what is committed stays; every
  entry up to the commit index is committed exactly as long as no call commits beyond the entry
  that comes next (`not_prefixCommitted`: `commit_entry` takes any index of the log).
* `failsClosed_iff`: a call that the journal refuses leaves the node as it was exactly when it had
  nothing to change (`not_failsClosed`: the handlers change the node before they write).

The invariant `Kept` also says that the terms of the log are at most the current one and that all
digests verify, so that a commit of an entry of the log succeeds.
-/

namespace Adaad.Consensus

open Py Run

variable {P : Platform} {r r' : Replica P}

/-! ### Entries -/

theorem LogEntry.build_eq_ok {term : Int} {index : Nat} {entryType : Str} {payload : P.Obj}
    {entry : LogEntry P} (h : LogEntry.build term index entryType payload = .ok entry) :
    entry.term = term ∧ entry.index = index ∧ entry.committed = false ∧
      entry.verifyDigest = .ok true := by
  unfold LogEntry.build at h
  cases hd : LogEntry.recomputeDigest P term index entryType payload with
  | error exc =>
    rw [hd] at h
    cases h
  | ok digest =>
    rw [hd] at h
    obtain rfl := Except.ok.inj h
    refine ⟨rfl, rfl, rfl, ?_⟩
    show (LogEntry.recomputeDigest P term index entryType payload).map _ = _
    rw [hd]
    exact congrArg Except.ok (decide_eq_true rfl)

theorem LogEntry.build_eq_error {term : Int} {index : Nat} {entryType : Str} {payload : P.Obj}
    {exc : Exc} : LogEntry.build term index entryType payload = .error exc ↔
      LogEntry.recomputeDigest P term index entryType payload = .error exc := by
  unfold LogEntry.build
  cases LogEntry.recomputeDigest P term index entryType payload with
  | error e =>
    constructor
    · rintro ⟨⟩
      rfl
    · rintro ⟨⟩
      rfl
  | ok digest => exact iff_of_false (by rintro ⟨⟩) (by rintro ⟨⟩)

/-! ### What a call does -/

theorem le_currentTerm_requestVote (e : Engine) (cid : Str) (term : Int) :
    e.state.currentTerm ≤ (requestVote e cid term).2.state.currentTerm := by
  rcases requestVote_cases e cid term with ⟨t, h⟩ | ⟨s, h, -, hterm, -, hcase⟩
  · rw [h]
  · rw [h]
    show e.state.currentTerm ≤ s.currentTerm
    omega

theorem le_currentTerm_receiveHeartbeat (e : Engine) (lid : Str) (term : Int) :
    e.state.currentTerm ≤ (receiveHeartbeat e lid term).state.currentTerm := by
  rcases receiveHeartbeat_cases e lid term with h | ⟨s, h, -, hle, -, -⟩
  · rw [h]
  · rw [h]
    exact hle

theorem le_currentTerm_startElection (e : Engine) (eid : Str) (fault : Option Exc) :
    e.state.currentTerm ≤ (startElection e eid fault).2.state.currentTerm := by
  show e.state.currentTerm ≤ e.state.currentTerm + 1
  omega

theorem le_currentTerm_receiveVote (e : Engine) (eid : Str) (granted : Bool)
    (fault : Option Exc) :
    e.state.currentTerm ≤ (receiveVote e eid granted fault).2.state.currentTerm := by
  obtain ⟨s, votes, h, -, hterm, -⟩ := receiveVote_cases e eid granted fault
  rw [h]
  show e.state.currentTerm ≤ s.currentTerm
  rw [hterm]

theorem appendEntry_cases (r : Replica P) (entryType : Str) (payload : P.Obj)
    (fault : Option Exc) :
    (appendEntry r entryType payload fault).2 = r ∨
    ∃ entry : LogEntry P, (appendEntry r entryType payload fault).2 =
        { r with log := r.log ++ [entry] } ∧
      entry.term = r.engine.state.currentTerm ∧ entry.index = r.log.length ∧
      entry.committed = false ∧ entry.verifyDigest = .ok true := by
  unfold appendEntry
  by_cases hlead : r.engine.state.role = .leader
  · rw [if_pos hlead]
    cases hb : LogEntry.build r.engine.state.currentTerm r.log.length entryType payload with
    | error exc => exact .inl rfl
    | ok entry => exact .inr ⟨entry, rfl, LogEntry.build_eq_ok hb⟩
  · rw [if_neg hlead]
    exact .inl rfl

theorem commitEntry_of_verified {i : Nat} {entry : LogEntry P} (hget : r.log[i]? = some entry)
    (hv : entry.verifyDigest = .ok true) :
    commitEntry r i = (.ok true,
      { r with
        log := r.log.set i { entry with committed := true }
        commitIndex := max r.commitIndex i }) := by
  unfold commitEntry
  rw [if_neg (by omega), Int.toNat_natCast, hget]
  dsimp only
  rw [hv]

theorem commitEntry_cases (r : Replica P) (index : Int) :
    (commitEntry r index).2 = r ∨
    ∃ (i : Nat) (entry : LogEntry P), index = i ∧ r.log[i]? = some entry ∧
      entry.verifyDigest = .ok true := by
  by_cases hneg : index < 0
  · left
    rw [commitEntry, if_pos hneg]
  · obtain ⟨i, rfl⟩ := Int.eq_ofNat_of_zero_le (not_lt.mp hneg)
    cases hget : r.log[i]? with
    | none =>
      left
      rw [commitEntry, if_neg hneg, Int.toNat_natCast, hget]
    | some entry =>
      cases hv : entry.verifyDigest with
      | error exc =>
        left
        rw [commitEntry, if_neg hneg, Int.toNat_natCast, hget]
        dsimp only
        rw [hv]
      | ok verified =>
        cases verified with
        | false =>
          left
          rw [commitEntry, if_neg hneg, Int.toNat_natCast, hget]
          dsimp only
          rw [hv]
        | true => exact .inr ⟨i, entry, rfl, hget, hv⟩

def Replica.committing (r : Replica P) (i : Nat) (entry : LogEntry P) : Replica P :=
  { r with
    log := r.log.set i { entry with committed := true }
    commitIndex := max r.commitIndex i }

theorem step_receiveVote (r : Replica P) (eid : Str) (granted : Bool) (fault : Option Exc) :
    ∃ e, r.step (.receiveVote eid granted fault) = { r with engine := e } ∧
      r.engine.state.currentTerm ≤ e.state.currentTerm :=
  ⟨_, rfl, le_currentTerm_receiveVote r.engine eid granted fault⟩

theorem step_cases (r : Replica P) (c : Call P) :
    ((r.step c).log = r.log ∧ (r.step c).commitIndex = r.commitIndex ∧
      r.engine.state.currentTerm ≤ (r.step c).engine.state.currentTerm) ∨
    (∃ entry : LogEntry P, r.step c = { r with log := r.log ++ [entry] } ∧
      entry.term = r.engine.state.currentTerm ∧ entry.index = r.log.length ∧
      entry.committed = false ∧ entry.verifyDigest = .ok true) ∨
    ∃ (i : Nat) (entry : LogEntry P), c = .commitEntry i ∧ r.log[i]? = some entry ∧
      r.step c = r.committing i entry := by
  cases c with
  | requestVote cid term => exact .inl ⟨rfl, rfl, le_currentTerm_requestVote r.engine cid term⟩
  | startElection eid fault =>
    exact .inl ⟨rfl, rfl, le_currentTerm_startElection r.engine eid fault⟩
  | receiveVote eid granted fault =>
    obtain ⟨e, hstep, hterm⟩ := step_receiveVote r eid granted fault
    rw [hstep]
    exact .inl ⟨rfl, rfl, hterm⟩
  | receiveHeartbeat lid term =>
    exact .inl ⟨rfl, rfl, le_currentTerm_receiveHeartbeat r.engine lid term⟩
  | appendEntry entryType payload fault =>
    rcases appendEntry_cases r entryType payload fault with h | h
    · have hstep : r.step (.appendEntry entryType payload fault) = r := h
      rw [hstep]
      exact .inl ⟨rfl, rfl, Int.le_refl _⟩
    · exact .inr (.inl h)
  | commitEntry index =>
    rcases commitEntry_cases r index with h | ⟨i, entry, rfl, hget, hv⟩
    · have hstep : r.step (.commitEntry index) = r := h
      rw [hstep]
      exact .inl ⟨rfl, rfl, Int.le_refl _⟩
    · exact .inr (.inr ⟨i, entry, rfl, hget, congrArg Prod.snd (commitEntry_of_verified hget hv)⟩)

/-! ### The invariant -/

structure Replica.Kept (r : Replica P) : Prop where
  numbered : r.Numbered
  ordered : r.TermsOrdered
  last : r.CommitIndexLast
  /-- No entry is of a later term than the current one. -/
  bounded : ∀ e ∈ r.log, e.term ≤ r.engine.state.currentTerm
  verified : ∀ e ∈ r.log, e.verifyDigest = .ok true

theorem Replica.CommitIndexLast.neg_one_le (h : r.CommitIndexLast) : -1 ≤ r.commitIndex := by
  rcases h.attained with heq | ⟨i, e, -, -, heq⟩ <;> omega

theorem Replica.CommitIndexLast.lt_length (h : r.CommitIndexLast) :
    r.commitIndex < r.log.length := by
  rcases h.attained with heq | ⟨i, e, hget, -, heq⟩
  · omega
  · have := (List.getElem?_eq_some_iff.mp hget).1
    omega

theorem kept_init (nodeId : Str) (peerIds : List Str) (hasJournal : Bool)
    (mode : JournalFailureMode) (critical : List Str) :
    (Replica.init P nodeId peerIds hasJournal mode critical).Kept where
  numbered _ _ h := absurd h (by rintro ⟨⟩)
  ordered := List.Pairwise.nil
  last := ⟨fun _ _ h => absurd h (by rintro ⟨⟩), .inl rfl⟩
  bounded _ h := absurd h List.not_mem_nil
  verified _ h := absurd h List.not_mem_nil

theorem getElem?_concat_cases {α : Type} {xs : List α} {x y : α} {i : Nat}
    (h : (xs ++ [x])[i]? = some y) : xs[i]? = some y ∨ (i = xs.length ∧ x = y) := by
  rw [List.getElem?_append] at h
  by_cases hi : i < xs.length
  · rw [if_pos hi] at h
    exact .inl h
  · rw [if_neg hi, List.getElem?_singleton] at h
    by_cases hz : i - xs.length = 0
    · rw [if_pos hz] at h
      exact .inr ⟨by omega, Option.some.inj h⟩
    · rw [if_neg hz] at h
      cases h

theorem Replica.Kept.append (h : r.Kept) {entry : LogEntry P}
    (hterm : entry.term = r.engine.state.currentTerm) (hindex : entry.index = r.log.length)
    (hnew : entry.committed = false) (hv : entry.verifyDigest = .ok true) :
    Replica.Kept { r with log := r.log ++ [entry] } where
  numbered i e hget := by
    rcases getElem?_concat_cases hget with hold | ⟨rfl, rfl⟩
    · exact h.numbered i e hold
    · exact hindex
  ordered := by
    refine List.pairwise_append.mpr ⟨h.ordered, List.pairwise_singleton _ _, ?_⟩
    intro e he e' he'
    rw [List.mem_singleton.mp he', hterm]
    exact h.bounded e he
  last := by
    refine ⟨fun i e hget hcommitted => ?_, ?_⟩
    · rcases getElem?_concat_cases hget with hold | ⟨-, rfl⟩
      · exact h.last.le i e hold hcommitted
      · rw [hnew] at hcommitted
        cases hcommitted
    · rcases h.last.attained with heq | ⟨i, e, hget, hcommitted, heq⟩
      · exact .inl heq
      · refine .inr ⟨i, e, ?_, hcommitted, heq⟩
        show (r.log ++ [entry])[i]? = some e
        rw [List.getElem?_append_left (List.getElem?_eq_some_iff.mp hget).1]
        exact hget
  bounded e he := by
    rcases List.mem_append.mp he with hold | hnew
    · exact h.bounded e hold
    · rw [List.mem_singleton.mp hnew, hterm]
  verified e he := by
    rcases List.mem_append.mp he with hold | hnew
    · exact h.verified e hold
    · rw [List.mem_singleton.mp hnew]
      exact hv

theorem committing_cases {i j : Nat} {entry e : LogEntry P} (hget : r.log[i]? = some entry)
    (h : (r.committing i entry).log[j]? = some e) :
    (j = i ∧ e = { entry with committed := true }) ∨ (j ≠ i ∧ r.log[j]? = some e) := by
  have hi := (List.getElem?_eq_some_iff.mp hget).1
  have h : (r.log.set i { entry with committed := true })[j]? = some e := h
  by_cases hj : j = i
  · subst hj
    rw [List.getElem?_set_self hi] at h
    exact .inl ⟨rfl, (Option.some.inj h).symm⟩
  · rw [List.getElem?_set_ne (Ne.symm hj)] at h
    exact .inr ⟨hj, h⟩

theorem committing_self {i : Nat} {entry : LogEntry P} (hget : r.log[i]? = some entry) :
    (r.committing i entry).log[i]? = some { entry with committed := true } :=
  List.getElem?_set_self (List.getElem?_eq_some_iff.mp hget).1

theorem committing_ne {i j : Nat} {entry : LogEntry P} (h : j ≠ i) :
    (r.committing i entry).log[j]? = r.log[j]? :=
  List.getElem?_set_ne (Ne.symm h)

theorem mem_committing {i : Nat} {entry e : LogEntry P} (h : e ∈ (r.committing i entry).log) :
    e = { entry with committed := true } ∨ e ∈ r.log :=
  (List.mem_or_eq_of_mem_set h).symm

theorem Replica.Kept.commit (h : r.Kept) {i : Nat} {entry : LogEntry P}
    (hget : r.log[i]? = some entry) : (r.committing i entry).Kept where
  numbered j e he := by
    rcases committing_cases hget he with ⟨rfl, rfl⟩ | ⟨-, hold⟩
    · exact h.numbered j entry hget
    · exact h.numbered j e hold
  ordered := by
    have hterms : (r.committing i entry).log.map (·.term) = r.log.map (·.term) := by
      refine List.ext_getElem? fun j => ?_
      rw [List.getElem?_map, List.getElem?_map]
      by_cases hji : j = i
      · rw [hji, committing_self hget, hget]
        rfl
      · rw [committing_ne hji]
    have hsorted : (r.log.map (·.term)).Pairwise (· ≤ ·) := List.pairwise_map.mpr h.ordered
    rw [← hterms] at hsorted
    exact List.pairwise_map.mp hsorted
  last := by
    refine ⟨fun j e he hcommitted => ?_, ?_⟩
    · show (j : Int) ≤ max r.commitIndex i
      rcases committing_cases hget he with ⟨rfl, -⟩ | ⟨-, hold⟩
      · exact le_max_right _ _
      · exact (h.last.le j e hold hcommitted).trans (le_max_left _ _)
    · right
      rcases le_total r.commitIndex i with hle | hle
      · exact ⟨i, _, committing_self hget, rfl, max_eq_right hle⟩
      · rcases h.last.attained with heq | ⟨j, e, hj, hcommitted, heq⟩
        · omega
        · by_cases hji : j = i
          · subst hji
            exact ⟨j, _, committing_self hget, rfl, max_eq_right heq.le⟩
          · exact ⟨j, e, (committing_ne hji).trans hj, hcommitted, (max_eq_left hle).trans heq⟩
  bounded e he := by
    rcases mem_committing he with rfl | hold
    · exact h.bounded entry (List.mem_of_getElem? hget)
    · exact h.bounded e hold
  verified e he := by
    rcases mem_committing he with rfl | hold
    · exact h.verified entry (List.mem_of_getElem? hget)
    · exact h.verified e hold

theorem Replica.Kept.step (h : r.Kept) (c : Call P) : (r.step c).Kept := by
  rcases step_cases r c with ⟨hlog, hindex, hterm⟩ | ⟨entry, hstep, hterm, hindex, hnew, hv⟩ |
    ⟨i, entry, rfl, hget, hstep⟩
  · constructor
    · rw [Replica.Numbered, hlog]
      exact h.numbered
    · rw [Replica.TermsOrdered, hlog]
      exact h.ordered
    · constructor
      · rw [hlog, hindex]
        exact h.last.le
      · rw [hlog, hindex]
        exact h.last.attained
    · rw [hlog]
      exact fun e he => (h.bounded e he).trans hterm
    · rw [hlog]
      exact h.verified
  · rw [hstep]
    exact h.append hterm hindex hnew hv
  · rw [hstep]
    exact h.commit hget

/-! ### Committed entries stay -/

theorem Replica.Retains.trans {r₁ r₂ r₃ : Replica P} (h : r₁.Retains r₂) (h' : r₂.Retains r₃) :
    r₁.Retains r₃ :=
  fun i e hget hcommitted => h' i e (h i e hget hcommitted) hcommitted

theorem retains_step (r : Replica P) (c : Call P) : r.Retains (r.step c) := by
  intro j e hj hcommitted
  rcases step_cases r c with ⟨hlog, -, -⟩ | ⟨entry, hstep, -, -, -, -⟩ |
    ⟨i, entry, rfl, hget, hstep⟩
  · rw [hlog]
    exact hj
  · rw [hstep]
    show (r.log ++ [entry])[j]? = some e
    rw [List.getElem?_append_left (List.getElem?_eq_some_iff.mp hj).1]
    exact hj
  · rw [hstep]
    by_cases hji : j = i
    · -- The entry is committed again, which leaves it as it is.
      subst hji
      obtain rfl := Option.some.inj (hget.symm.trans hj)
      rw [committing_self hget, ← hcommitted]
    · rw [committing_ne hji]
      exact hj

/-! ### The commit index -/

theorem Replica.Kept.prefixCommitted_step (h : r.Kept) (hr : r.PrefixCommitted) (c : Call P) :
    (r.step c).PrefixCommitted ↔ r.CommitsNext c := by
  constructor
  · -- Were the place after the commit index skipped, its entry would not be committed.
    intro hprefix
    cases c with
    | commitEntry index =>
      intro hlt
      by_contra hskip
      have hge := h.last.neg_one_le
      obtain ⟨i, rfl⟩ := Int.eq_ofNat_of_zero_le (show 0 ≤ index by omega)
      obtain ⟨k, hk⟩ := Int.eq_ofNat_of_zero_le (show 0 ≤ r.commitIndex + 1 by omega)
      have hi : i < r.log.length := by omega
      have hki : k < i := by omega
      have hget : r.log[i]? = some r.log[i] := List.getElem?_eq_getElem hi
      have hgetk : r.log[k]? = some (r.log.get ⟨k, hki.trans hi⟩) :=
        List.getElem?_eq_getElem (hki.trans hi)
      have hstep : r.step (.commitEntry i) = r.committing i r.log[i] :=
        congrArg Prod.snd (commitEntry_of_verified hget (h.verified _ (List.getElem_mem hi)))
      rw [hstep] at hprefix
      have hcommitted := hprefix k _ ((committing_ne hki.ne).trans hgetk)
        ((Int.ofNat_le.mpr hki.le).trans (le_max_right _ _))
      have := h.last.le k _ hgetk hcommitted
      omega
    | requestVote cid term => trivial
    | startElection eid fault => trivial
    | receiveVote eid granted fault => trivial
    | appendEntry entryType payload fault => trivial
    | receiveHeartbeat lid term => trivial
  · intro hnext j e hj hle
    rcases step_cases r c with ⟨hlog, hindex, -⟩ | ⟨entry, hstep, -, -, -, -⟩ |
      ⟨i, entry, rfl, hget, hstep⟩
    · rw [hlog] at hj
      rw [hindex] at hle
      exact hr j e hj hle
    · rw [hstep] at hj hle
      have hlt := h.last.lt_length
      rcases getElem?_concat_cases hj with hold | ⟨rfl, -⟩
      · exact hr j e hold hle
      · exact absurd hle (by show ¬ (r.log.length : Int) ≤ r.commitIndex; omega)
    · rw [hstep] at hj hle
      have hle : (j : Int) ≤ max r.commitIndex i := hle
      have hi := (List.getElem?_eq_some_iff.mp hget).1
      have hnext := hnext (Int.ofNat_lt.mpr hi)
      rcases committing_cases hget hj with ⟨-, rfl⟩ | ⟨hji, hold⟩
      · rfl
      · refine hr j e hold ?_
        rcases le_max_iff.mp hle with hle | hle
        · exact hle
        · omega

/-- In a run of a new engine the log is in order and its committed entries stay, and every entry up
to the commit index is committed exactly as long as every commit is one of the next entry or of one
before it. -/
theorem log_kept (nodeId : Str) (peerIds : List Str) (hasJournal : Bool)
    (mode : JournalFailureMode) (critical : List Str) (calls : List (Call P)) :
    Always Replica.step (fun r => r.Numbered ∧ r.TermsOrdered ∧ r.CommitIndexLast)
      (.init P nodeId peerIds hasJournal mode critical) calls ∧
    Henceforth Replica.step Replica.Retains
      (.init P nodeId peerIds hasJournal mode critical) calls ∧
    (Always Replica.step Replica.PrefixCommitted
        (.init P nodeId peerIds hasJournal mode critical) calls ↔
      Meets Replica.step Replica.CommitsNext
        (.init P nodeId peerIds hasJournal mode critical) calls) := by
  have hinit := kept_init (P := P) nodeId peerIds hasJournal mode critical
  refine ⟨?_, ?_, ?_⟩
  · exact (always_of_forall_step (fun r c h => h.step c) hinit calls).imp fun r h =>
      ⟨h.numbered, h.ordered, h.last⟩
  · refine (henceforth_iff_meets (fun r i e hget _ => hget) fun _ _ _ => .trans).mpr ?_
    exact meets_of_forall_mem fun c _ r => retains_step r c
  · exact always_iff_meets_of_invariant (fun r c h => h.step c)
      (fun r c h hr => h.prefixCommitted_step hr c) hinit
      fun i e hget => absurd hget (by rintro ⟨⟩)

theorem Replica.PrefixCommitted.getElem?_ne (h : r.PrefixCommitted) {i : Nat}
    (hi : (i : Int) ≤ r.commitIndex) : (r.log.map (·.committed))[i]? ≠ some false := by
  rw [List.getElem?_map]
  cases hget : r.log[i]? with
  | none => rintro ⟨⟩
  | some e =>
    rw [Option.map_some, h i e hget hi]
    rintro ⟨⟩

/-- A node without peers elects itself, appends two entries and commits the second one. -/
def skippingCalls : List (Call reference) :=
  [.startElection election1 none, .receiveVote election1 false none,
    .appendEntry (str "proposal") (.dict []) none, .appendEntry (str "proposal") (.dict []) none,
    .commitEntry 1]

/-- `commit_entry` takes any index of the log, and the commit index goes up to it. -/
theorem not_prefixCommitted : ¬ Always Replica.step Replica.PrefixCommitted
    (.init reference nodeA [] false .failClosedCritical []) skippingCalls := by
  intro h
  have hend : ((run Replica.step (.init reference nodeA [] false .failClosedCritical [])
      skippingCalls).log.map (·.committed))[0]? = some false ∧
      0 ≤ (run Replica.step (.init reference nodeA [] false .failClosedCritical [])
        skippingCalls).commitIndex := by
    decide +kernel
  exact h.last.getElem?_ne hend.2 hend.1

/-! ### A journal that refuses an event -/

theorem journal_of_refused {e : Engine} {eventType : Str} {fault : Option Exc}
    (h : e.Refused eventType fault) : ∃ exc, e.journal eventType fault = .error exc := by
  obtain ⟨hjournal, hmode, hcritical, hfault⟩ := h
  obtain ⟨exc, rfl⟩ := Option.ne_none_iff_exists'.mp hfault
  refine ⟨exc, ?_⟩
  unfold Engine.journal
  rw [if_pos hjournal]
  exact if_pos ⟨hmode, hcritical⟩

theorem journal_of_not_refused {e : Engine} {eventType : Str} {fault : Option Exc}
    (h : ¬ e.Refused eventType fault) : e.journal eventType fault = .ok () := by
  unfold Engine.journal
  by_cases hjournal : e.hasJournal = true
  · rw [if_pos hjournal]
    cases fault with
    | none => rfl
    | some exc =>
      refine if_neg fun hclosed => h ⟨hjournal, hclosed.1, hclosed.2, ?_⟩
      rintro ⟨⟩
  · rw [if_neg hjournal]

theorem exists_raised_iff {e : Engine} {eventType : Str} {fault : Option Exc} :
    (∃ exc, (e.journal eventType fault).mapError Raised.journal = .error (.journal exc)) ↔
      e.Refused eventType fault := by
  constructor
  · rintro ⟨exc, hexc⟩
    by_contra hrefused
    rw [journal_of_not_refused hrefused] at hexc
    cases hexc
  · intro hrefused
    obtain ⟨exc, hexc⟩ := journal_of_refused hrefused
    rw [hexc]
    exact ⟨exc, rfl⟩

/-- A call that comes to the journal as the last thing it does fails closed exactly if the event is
not refused, or nothing was changed. -/
theorem failsClosed_iff_of_written {c : Call P} {eventType : Str} {fault : Option Exc}
    (hcall : (r.call c).1 = (r.engine.journal eventType fault).mapError Raised.journal) :
    r.FailsClosed c ↔ (r.engine.Refused eventType fault →
      (r.step c).engine.state = r.engine.state ∧ (r.step c).log = r.log ∧
        (r.step c).commitIndex = r.commitIndex) := by
  rw [← exists_raised_iff, ← hcall]
  exact exists_imp.symm

theorem failsClosed_of_not_raised {c : Call P}
    (h : ∀ exc, (r.call c).1 ≠ .error (.journal exc)) : r.FailsClosed c :=
  fun exc hexc => absurd hexc (h exc)

theorem failsClosed_startElection (r : Replica P) (eid : Str) (fault : Option Exc) :
    r.FailsClosed (.startElection eid fault) ↔ ¬ r.engine.Refused electionStarted fault := by
  have hcall : (r.call (.startElection eid fault)).1 =
      (r.engine.journal electionStarted fault).mapError Raised.journal := by
    show Except.map _ (Except.mapError _ (Except.map _ (r.engine.journal _ _))) = _
    cases r.engine.journal electionStarted fault <;> rfl
  rw [failsClosed_iff_of_written hcall]
  refine imp_congr_right fun _ => iff_false_intro ?_
  rintro ⟨hstate, -, -⟩
  -- The term has gone up.
  have hterm : r.engine.state.currentTerm + 1 = r.engine.state.currentTerm :=
    congrArg ConsensusState.currentTerm hstate
  omega

def ConsensusState.elected (s : ConsensusState) : ConsensusState :=
  { s with role := .leader, leaderId := some s.nodeId }

theorem elected_eq_self_iff {s : ConsensusState} :
    s.elected = s ↔ s.role = .leader ∧ s.leaderId = some s.nodeId := by
  constructor
  · intro h
    rw [← h]
    exact ⟨rfl, rfl⟩
  · rintro ⟨hrole, hleader⟩
    rw [ConsensusState.elected, ← hleader, ← hrole]

theorem receiveVote_of_quorum {e : Engine} {eid : Str} {granted : Bool} (fault : Option Exc)
    (h : reachesQuorum ((e.count eid granted).votesReceived eid) e.totalNodes = true) :
    receiveVote e eid granted fault = ((e.journal leaderElected fault).map fun _ => true,
      { e.count eid granted with state := e.state.elected }) := by
  rw [receiveVote]
  dsimp only
  rw [totalNodes_count, if_pos h, count_eq]
  rfl

theorem receiveVote_of_not_quorum {e : Engine} {eid : Str} {granted : Bool} (fault : Option Exc)
    (h : ¬ reachesQuorum ((e.count eid granted).votesReceived eid) e.totalNodes = true) :
    receiveVote e eid granted fault = (.ok false, e.count eid granted) := by
  rw [receiveVote]
  dsimp only
  rw [totalNodes_count, if_neg h]

theorem failsClosed_receiveVote (r : Replica P) (eid : Str) (granted : Bool)
    (fault : Option Exc) :
    r.FailsClosed (.receiveVote eid granted fault) ↔
      (r.engine.Refused leaderElected fault →
        reachesQuorum ((r.engine.count eid granted).votesReceived eid) r.engine.totalNodes =
          true →
        r.engine.state.role = .leader ∧
          r.engine.state.leaderId = some r.engine.state.nodeId) := by
  have hfst : (r.call (.receiveVote eid granted fault)).1 =
      ((receiveVote r.engine eid granted fault).1.mapError Raised.journal).map fun _ => () := rfl
  have hsnd : r.step (.receiveVote eid granted fault) =
      { r with engine := (receiveVote r.engine eid granted fault).2 } := rfl
  by_cases hquorum :
      reachesQuorum ((r.engine.count eid granted).votesReceived eid) r.engine.totalNodes = true
  · rw [receiveVote_of_quorum fault hquorum] at hfst hsnd
    have hcall : (r.call (.receiveVote eid granted fault)).1 =
        (r.engine.journal leaderElected fault).mapError Raised.journal := by
      rw [hfst]
      cases r.engine.journal leaderElected fault <;> rfl
    rw [failsClosed_iff_of_written hcall, hsnd]
    refine imp_congr_right fun _ => ?_
    rw [forall_prop_of_true hquorum, ← elected_eq_self_iff]
    exact and_iff_left ⟨rfl, rfl⟩
  · rw [receiveVote_of_not_quorum fault hquorum] at hfst
    refine iff_of_true (failsClosed_of_not_raised fun exc hraises => ?_) fun _ h =>
      absurd h hquorum
    rw [hfst] at hraises
    cases hraises

theorem failsClosed_appendEntry (r : Replica P) (entryType : Str) (payload : P.Obj)
    (fault : Option Exc) :
    r.FailsClosed (.appendEntry entryType payload fault) ↔
      (r.engine.Refused logAppended fault → r.engine.state.role = .leader →
        ∃ exc, LogEntry.recomputeDigest P r.engine.state.currentTerm r.log.length entryType
          payload = .error exc) := by
  by_cases hlead : r.engine.state.role = .leader
  · cases hb : LogEntry.build r.engine.state.currentTerm r.log.length entryType payload with
    | error exc =>
      refine iff_of_true (failsClosed_of_not_raised fun exc' hraises => ?_) fun _ _ =>
        ⟨exc, LogEntry.build_eq_error.mp hb⟩
      have happend : appendEntry r entryType payload fault = (.error (.digest exc), r) := by
        rw [appendEntry, if_pos hlead, hb]
      have hraises : Except.map _ (appendEntry r entryType payload fault).1 = _ := hraises
      rw [happend] at hraises
      cases hraises
    | ok entry =>
      have happend : appendEntry r entryType payload fault =
          (((r.engine.journal logAppended fault).mapError Raised.journal).map fun _ => some entry,
            { r with log := r.log ++ [entry] }) := by
        rw [appendEntry, if_pos hlead, hb]
      have hcall : (r.call (.appendEntry entryType payload fault)).1 =
          (r.engine.journal logAppended fault).mapError Raised.journal := by
        show Except.map _ (appendEntry r entryType payload fault).1 = _
        rw [happend]
        cases r.engine.journal logAppended fault <;> rfl
      rw [failsClosed_iff_of_written hcall]
      refine imp_congr_right fun _ => iff_of_false ?_ fun h => ?_
      · rintro ⟨-, hlog, -⟩
        have hlog : (appendEntry r entryType payload fault).2.log = r.log := hlog
        rw [happend] at hlog
        exact absurd (congrArg List.length hlog) (by simp)
      · obtain ⟨exc, hexc⟩ := h hlead
        rw [← LogEntry.build_eq_error, hb] at hexc
        cases hexc
  · refine iff_of_true (failsClosed_of_not_raised fun exc hraises => ?_) fun _ h =>
      absurd h hlead
    have hraises : Except.map _ (appendEntry r entryType payload fault).1 = _ := hraises
    rw [appendEntry, if_neg hlead] at hraises
    cases hraises

theorem commitEntry_ne_journal (r : Replica P) (index : Int) (exc : Exc) :
    (commitEntry r index).1 ≠ .error (.journal exc) := by
  unfold commitEntry
  by_cases hneg : index < 0
  · rw [if_pos hneg]
    rintro ⟨⟩
  · rw [if_neg hneg]
    cases r.log[index.toNat]? with
    | none => rintro ⟨⟩
    | some entry =>
      dsimp only
      cases entry.verifyDigest with
      | error e => rintro ⟨⟩
      | ok verified => cases verified <;> rintro ⟨⟩

/-- A call that raises because of the journal leaves the node as it was exactly if the journal takes
its event, or it had nothing to change. -/
theorem failsClosed_iff (r : Replica P) (c : Call P) : r.FailsClosed c ↔ r.Unrefused c := by
  cases c with
  | startElection eid fault => exact failsClosed_startElection r eid fault
  | receiveVote eid granted fault => exact failsClosed_receiveVote r eid granted fault
  | appendEntry entryType payload fault => exact failsClosed_appendEntry r entryType payload fault
  | requestVote cid term =>
    exact iff_of_true (failsClosed_of_not_raised fun exc => by rintro ⟨⟩) trivial
  | receiveHeartbeat lid term =>
    exact iff_of_true (failsClosed_of_not_raised fun exc => by rintro ⟨⟩) trivial
  | commitEntry index =>
    refine iff_of_true (failsClosed_of_not_raised fun exc hraises => ?_) trivial
    have hraises : Except.map _ (commitEntry r index).1 = _ := hraises
    rcases hresult : (commitEntry r index).1 with failure | answer
    · rw [hresult] at hraises
      obtain rfl := Except.error.inj hraises
      exact commitEntry_ne_journal r index exc hresult
    · rw [hresult] at hraises
      cases hraises

def unwritable : Replica reference :=
  .init reference nodeA [nodeB, nodeC] true .failClosedCritical []

/-- The node is a candidate of the next term although its election is not in the journal. -/
theorem not_failsClosed : unwritable.engine.journalFailureMode = .failClosedCritical ∧
    ¬ unwritable.FailsClosed
      (.startElection election1 (some (.valueError (str "write failed")))) := by
  refine ⟨rfl, fun h => ?_⟩
  rw [failsClosed_startElection] at h
  exact h (by decide)

end Adaad.Consensus
