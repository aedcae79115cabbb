import Adaad.Federation.Propagation
import Adaad.Federation.Equiv.MutationBroker

/-!
# When a propagation is all or nothing

The entry of a destination is put on the rollback list after its writer has returned.  So what a
writer that raises has changed by then is not put back, and neither is anything when the audit
writer raises after the loop (`atomic_iff`).
-/

namespace Adaad.MutationBroker

open Py Undo

variable {P : Platform} {D S : Type} [DecidableEq D] (destinationId : D → Str)

/-! ### Replies -/

def Reply.Asks (r : Reply P S) : Prop :=
  r.reader = none ∧ ∃ d, r.gate = .inr d ∧ approved d = true

/-- Nothing raises for the destination, and its gate approves. -/
def Reply.Passes (r : Reply P S) : Prop :=
  r.Asks ∧ r.writer = none

/-- What the writers of these destinations make of all of them. -/
def writeAll (pending : List (D × Reply P S)) (states : D → S) : D → S :=
  pending.foldl (fun states m => Function.update states m.1 (m.2.change (states m.1))) states

/-- What the loop asks and writes for these destinations. -/
def writeTrace (pending : List (D × Reply P S)) : List (Event D) :=
  pending.flatMap fun m => [.gated m.1 true, .written m.1]

theorem writeAll_apply_of_notMem {pending : List (D × Reply P S)} {d : D}
    (h : d ∉ pending.map Prod.fst) (states : D → S) : writeAll pending states d = states d := by
  induction pending generalizing states with
  | nil => rfl
  | cons m pending ih =>
    rw [List.map_cons, List.mem_cons, not_or] at h
    exact (ih h.2 _).trans (Function.update_of_ne h.1 _ _)

/-! ### The loop -/

/-- The rollback list takes the destinations back to what they were before the call. -/
def Progress.Undoes (s : Progress D S) (before : D → S) : Prop :=
  Saves before s.rollbackEntries s.states

theorem propagateTo_of_passes {s : Progress D S} {d : D} {r : Reply P S} {before : D → S}
    (hr : r.Passes) (hs : s.Undoes before) :
    ∃ s', propagateTo destinationId s d r = (s', .ok ()) ∧ s'.Undoes before ∧
      s'.states = writeAll [(d, r)] s.states ∧ s'.trace = s.trace ++ writeTrace [(d, r)] ∧
      s'.rollbackEntries.map Prod.fst = s.rollbackEntries.map Prod.fst ++ [d] := by
  obtain ⟨⟨hreader, g, hgate, happroved⟩, hwriter⟩ := hr
  unfold propagateTo
  simp only [hreader, hgate, happroved, not_true_eq_false, if_false, hwriter]
  refine ⟨_, rfl, hs.write d _, rfl, ?_, ?_⟩
  · show s.trace ++ [.gated d true] ++ [.written d] = _
    rw [List.append_assoc]
    rfl
  · rw [List.map_append, List.map_singleton]

theorem propagateTo_of_not_passes {s : Progress D S} {d : D} {r : Reply P S} (hr : ¬ r.Passes) :
    ∃ s' e, propagateTo destinationId s d r = (s', .error e) ∧
      s'.rollbackEntries = s.rollbackEntries ∧
      ((r.Asks ∧ s'.states = Function.update s.states d (r.change (s.states d))) ∨
        (¬ r.Asks ∧ s'.states = s.states)) := by
  unfold propagateTo
  cases hreader : r.reader with
  | some e =>
    refine ⟨_, e, rfl, rfl, .inr ⟨fun hasks => ?_, rfl⟩⟩
    cases hreader.symm.trans hasks.1
  | none =>
    cases hgate : r.gate with
    | inl e =>
      refine ⟨_, e, rfl, rfl, .inr ⟨fun hasks => ?_, rfl⟩⟩
      obtain ⟨-, g, hg, -⟩ := hasks
      cases hgate.symm.trans hg
    | inr g =>
      by_cases happroved : approved g = true
      · have hasks : r.Asks := ⟨hreader, g, hgate, happroved⟩
        cases hwriter : r.writer with
        | none => exact absurd ⟨hasks, hwriter⟩ hr
        | some e =>
          simp only [happroved, not_true_eq_false, if_false]
          exact ⟨_, e, rfl, rfl, .inl ⟨hasks, rfl⟩⟩
      · simp only [happroved]
        refine ⟨_, _, rfl, rfl, .inr ⟨fun hasks => ?_, rfl⟩⟩
        obtain ⟨-, g', hg', happroved'⟩ := hasks
        obtain rfl := Sum.inr.inj (hgate.symm.trans hg')
        exact happroved happroved'

theorem propagateLoop_of_passes {s : Progress D S} {pending : List (D × Reply P S)}
    {before : D → S} (hall : ∀ m ∈ pending, m.2.Passes) (hs : s.Undoes before) :
    ∃ s', propagateLoop destinationId s pending = (s', .ok ()) ∧ s'.Undoes before ∧
      s'.states = writeAll pending s.states ∧ s'.trace = s.trace ++ writeTrace pending ∧
      s'.rollbackEntries.map Prod.fst =
        s.rollbackEntries.map Prod.fst ++ pending.map Prod.fst := by
  induction pending generalizing s with
  | nil =>
    exact ⟨s, rfl, hs, rfl, (List.append_nil _).symm, (List.append_nil _).symm⟩
  | cons m pending ih =>
    obtain ⟨d, r⟩ := m
    rw [List.forall_mem_cons] at hall
    obtain ⟨s₁, hone, hs₁, hstates, htrace, hentries⟩ :=
      propagateTo_of_passes destinationId (d := d) hall.1 hs
    obtain ⟨s', hloop, hs', hstates', htrace', hentries'⟩ := ih hall.2 hs₁
    refine ⟨s', ?_, hs', ?_, ?_, ?_⟩
    · rw [propagateLoop, hone]
      exact hloop
    · rw [hstates', hstates]
      rfl
    · rw [htrace', htrace, List.append_assoc]
      rfl
    · rw [hentries', hentries, List.append_assoc]
      rfl

theorem propagateLoop_append (s : Progress D S) (pending pending' : List (D × Reply P S)) :
    propagateLoop destinationId s (pending ++ pending') =
      match propagateLoop destinationId s pending with
      | (s', .ok ()) => propagateLoop destinationId s' pending'
      | (s', .error e) => (s', .error e) := by
  induction pending generalizing s with
  | nil => rfl
  | cons m pending ih =>
    rw [List.cons_append, propagateLoop, propagateLoop]
    rcases propagateTo destinationId s m.1 m.2 with ⟨s₁, e | u⟩
    · rfl
    · exact ih s₁

theorem propagateLoop_of_not_passes {earlier : List (D × Reply P S)} {d : D} {r : Reply P S}
    (later : List (D × Reply P S)) (before : D → S) (hall : ∀ m ∈ earlier, m.2.Passes)
    (hr : ¬ r.Passes) :
    ∃ s' e, propagateLoop destinationId { states := before } (earlier ++ (d, r) :: later) =
        (s', .error e) ∧
      (undo s'.rollbackEntries s'.states = before ↔
        (r.Asks → d ∉ earlier.map Prod.fst → r.change (before d) = before d)) := by
  obtain ⟨s₁, hloop, hs₁, hstates, -, hentries⟩ :=
    propagateLoop_of_passes destinationId (s := { states := before }) hall (saves_nil before)
  obtain ⟨s', e, hone, hsame, hcases⟩ :=
    propagateTo_of_not_passes destinationId (s := s₁) (d := d) hr
  refine ⟨s', e, ?_, ?_⟩
  · rw [propagateLoop_append, hloop]
    show propagateLoop destinationId s₁ ((d, r) :: later) = _
    rw [propagateLoop, hone]
  · have hfst : s₁.rollbackEntries.map Prod.fst = earlier.map Prod.fst := hentries
    rw [hsame]
    rcases hcases with ⟨hasks, hstates'⟩ | ⟨hasks, hstates'⟩
    · rw [imp_iff_right hasks, hstates']
      by_cases hd : d ∈ earlier.map Prod.fst
      · -- the snapshot of an earlier write to the same destination covers this one
        rw [hs₁.overwrite (hfst ▸ hd)]
        exact iff_of_true rfl fun hnot => absurd hd hnot
      · have hkept : s₁.states d = before d := by
          rw [hstates]
          exact writeAll_apply_of_notMem hd before
        have hundo : undo s₁.rollbackEntries s₁.states = before := hs₁
        rw [undo_update_of_notMem (hfst ▸ hd), hundo, Function.update_eq_self_iff, hkept,
          imp_iff_right hd]
    · rw [hstates']
      exact iff_of_true hs₁ fun h => absurd h hasks

/-! ### All or nothing -/

theorem exists_first_not {α : Type} {p : α → Prop} {xs : List α} (h : ¬ ∀ x ∈ xs, p x) :
    ∃ earlier x later, xs = earlier ++ x :: later ∧ (∀ y ∈ earlier, p y) ∧ ¬ p x := by
  induction xs with
  | nil => exact absurd (fun x hx => absurd hx List.not_mem_nil) h
  | cons x xs ih =>
    by_cases hx : p x
    · have hrest : ¬ ∀ y ∈ xs, p y := fun hall => h (List.forall_mem_cons.mpr ⟨hx, hall⟩)
      obtain ⟨earlier, y, later, rfl, hall, hy⟩ := ih hrest
      exact ⟨x :: earlier, y, later, rfl, List.forall_mem_cons.mpr ⟨hx, hall⟩, hy⟩
    · exact ⟨[], x, xs, rfl, fun y hy => absurd hy List.not_mem_nil, hx⟩

theorem count_writeTrace (pending : List (D × Reply P S)) (d : D) :
    (writeTrace pending).count (.written d) = (pending.map Prod.fst).count d := by
  induction pending with
  | nil => rfl
  | cons m pending ih =>
    have htrace : writeTrace (m :: pending) =
        .gated m.1 true :: .written m.1 :: writeTrace pending := rfl
    rw [htrace, List.count_cons_of_ne (by simp), List.map_cons, List.count_cons, List.count_cons,
      ih]
    simp

omit [DecidableEq D] in
theorem exists_gated_of_mem {pending : List (D × Reply P S)} {d : D}
    (h : d ∈ pending.map Prod.fst) :
    ∃ t t', writeTrace pending = t ++ .written d :: t' ∧ .gated d true ∈ t := by
  obtain ⟨m, hm, rfl⟩ := List.mem_map.mp h
  obtain ⟨earlier, later, rfl⟩ := List.append_of_mem hm
  refine ⟨writeTrace earlier ++ [.gated m.1 true], writeTrace later, ?_, by simp⟩
  simp [writeTrace]

omit [DecidableEq D] in
theorem map_fst_pendingDestinations (replies : Nat → Reply P S) (a : Amendment P D) :
    (pendingDestinations destinationId replies a).map Prod.fst =
      orderedDestinationNodes destinationId a.destinationNodes := by
  unfold pendingDestinations
  rw [List.map_map]
  exact List.zipIdx_map_fst 0 _

/-- A writer that raises has changed nothing, unless its destination was written before and so has a
snapshot; and where all destinations are written, the last event is written as well (or the writers
have changed nothing) and no destination is there twice. -/
def LeavesNothing (c : Config) (audit : Str → Option Raised) (replies : Nat → Reply P S)
    (before : D → S) (a : Amendment P D) : Prop :=
  let pending := pendingDestinations destinationId replies a
  (∀ earlier d r later, pending = earlier ++ (d, r) :: later → (∀ m ∈ earlier, m.2.Passes) →
    ¬ r.Passes → r.Asks → d ∉ earlier.map Prod.fst → r.change (before d) = before d) ∧
  ((∀ m ∈ pending, m.2.Passes) →
    (failsClosed c audit propagatedEvent = true → writeAll pending before = before) ∧
    (failsClosed c audit propagatedEvent = false → a.destinationNodes.Nodup))

theorem atomic_of_passes {c : Config} {audit : Str → Option Raised} {replies : Nat → Reply P S}
    {b : Broker P} {before : D → S} {a : Amendment P D} (hcheck : checkAmendment a = .ok ())
    (hall : ∀ m ∈ pendingDestinations destinationId replies a, m.2.Passes) :
    Atomic before a (propagateAmendment destinationId c audit replies b before a) ↔
      (failsClosed c audit propagatedEvent = true →
        writeAll (pendingDestinations destinationId replies a) before = before) ∧
      (failsClosed c audit propagatedEvent = false → a.destinationNodes.Nodup) := by
  obtain ⟨s', hloop, -, hstates, htrace, -⟩ :=
    propagateLoop_of_passes destinationId (s := { states := before }) hall (saves_nil before)
  unfold propagateAmendment
  simp only [hcheck, hloop]
  cases hclosed : failsClosed c audit propagatedEvent with
  | true =>
    have herror : (emitAudit c audit b propagatedEvent).2 =
        .error (auditError audit propagatedEvent) := if_pos hclosed
    rw [herror]
    show s'.states = before ↔ _
    rw [hstates]
    simp
  | false =>
    have hok : (emitAudit c audit b propagatedEvent).2 = .ok () :=
      if_neg (by rw [hclosed]; exact Bool.false_ne_true)
    rw [hok]
    show (∀ d ∈ a.destinationNodes, s'.trace.count (.written d) = 1 ∧ _) ↔ _
    have hperm : (orderedDestinationNodes destinationId a.destinationNodes).Perm
        a.destinationNodes := List.perm_insertionSort _ _
    have htrace' : s'.trace = writeTrace (pendingDestinations destinationId replies a) := htrace
    have hcount : ∀ d, s'.trace.count (.written d) = a.destinationNodes.count d := by
      intro d
      rw [htrace', count_writeTrace, map_fst_pendingDestinations, hperm.count_eq]
    rw [and_iff_right fun h => absurd h Bool.false_ne_true, imp_iff_right rfl,
      List.nodup_iff_count_eq_one]
    refine forall₂_congr fun d hd => ?_
    rw [hcount, and_iff_left]
    have hmem : d ∈ (pendingDestinations destinationId replies a).map Prod.fst := by
      rw [map_fst_pendingDestinations]
      exact hperm.mem_iff.mpr hd
    show ∃ t t', s'.trace = t ++ .written d :: t' ∧ .gated d true ∈ t
    rw [htrace']
    exact exists_gated_of_mem hmem

/-- A call is all or nothing exactly when it does not get past its first checks or leaves nothing
behind. -/
theorem atomic_iff (c : Config) (audit : Str → Option Raised) (replies : Nat → Reply P S)
    (b : Broker P) (before : D → S) (a : Amendment P D) :
    Atomic before a (propagateAmendment destinationId c audit replies b before a) ↔
      (checkAmendment a = .ok () → LeavesNothing destinationId c audit replies before a) := by
  cases hcheck : checkAmendment a with
  | error e =>
    unfold propagateAmendment
    simp only [hcheck]
    exact iff_of_true rfl fun h => by cases h
  | ok u =>
    rw [imp_iff_right rfl]
    by_cases hall : ∀ m ∈ pendingDestinations destinationId replies a, m.2.Passes
    · rw [atomic_of_passes destinationId hcheck hall, LeavesNothing, imp_iff_right hall, iff_and_self]
      -- nothing raises, so that no writer does
      intro _ earlier d r later hsplit _ hr
      exact absurd (hall (d, r) (by rw [hsplit]; simp)) hr
    · obtain ⟨earlier, ⟨d, r⟩, later, hsplit, hearlier, hr⟩ := exists_first_not hall
      obtain ⟨s', e, hloop, hundo⟩ :=
        propagateLoop_of_not_passes destinationId later before hearlier hr
      have hresult : Atomic before a (propagateAmendment destinationId c audit replies b before a) ↔
          undo s'.rollbackEntries s'.states = before := by
        rw [← hsplit] at hloop
        unfold propagateAmendment
        simp only [hcheck, hloop]
        rcases (emitAudit c audit (emitAudit c audit b diagnosticEvent).1 rollbackEvent).2 with
          exc | written
        · rfl
        · rfl
      rw [hresult, hundo, LeavesNothing]
      constructor
      · intro h
        refine ⟨fun earlier' d' r' later' hsplit' hearlier' hr' => ?_, fun h => absurd h hall⟩
        obtain ⟨s'', e', hloop', hundo'⟩ :=
          propagateLoop_of_not_passes destinationId later' before hearlier' hr'
        rw [← hsplit', hsplit, hloop] at hloop'
        obtain ⟨rfl, -⟩ := Prod.mk.inj hloop'
        exact hundo'.mp (hundo.mpr h)
      · exact fun h => h.1 earlier d r later hsplit hearlier hr

/-! ### A write that is broken off -/

/-- The gate approves; the writer changes the destination and raises. -/
def halfway : Reply reference Nat where
  reader := none
  gate := .inr [(.str (str "approved"), .bool true)]
  change := (· + 1)
  writer := some ⟨str "OSError", str "disk full"⟩

def amendment : Amendment reference Nat where
  proposalId := str "p"
  sourceNode := str "s"
  destinationNodes := [0]
  propagationTimestamp := str "t"
  evidenceBundleHash := str "h"
  hmacKeyIsFile := true

/-- In general a call that raises leaves a change behind. -/
theorem not_atomic : ¬ ∀ (c : Config) (audit : Str → Option Raised)
    (replies : Nat → Reply reference Nat) (before : Nat → Nat) (a : Amendment reference Nat),
    Atomic before a (propagateAmendment natText c audit replies {} before a) := by
  intro h
  have hbefore : (propagateAmendment natText ⟨false, .failOpen⟩ (fun _ => none) (fun _ => halfway)
      {} (fun _ => 0) amendment).states = fun _ => 0 :=
    h ⟨false, .failOpen⟩ (fun _ => none) (fun _ => halfway) (fun _ => 0) amendment
  exact absurd (congrFun hbefore 0) (by decide +kernel)

end Adaad.MutationBroker
