import Adaad.Dorkllm.Equiv.MutationQueue

/-!
# Entries that can be completed

`complete` looks for the first entry with a mutation id, and `enqueue` does not ask whether the id
is new.  So an entry in flight can be completed exactly when no entry before it has its id
(`releases_iff`), and all of them can in every state of a run exactly when no call of `dequeue`
takes out an entry with the id of an earlier one (`releasable_iff`).  The list of the ids in flight
always has those of the entries in flight (`tallied_step`).
-/

namespace Adaad.MutationQueue

open Py Run

variable {P : Platform} {hmacSecret : Bytes} {w : World} {es : List QueueEntry}

/-! ### The ids in flight -/

def flightIds (es : List QueueEntry) : List Str :=
  (es.filter fun e => e.status = .inFlight).map QueueEntry.mutationId

/-- The queue keeps the ids of the entries in flight. -/
def Tallied (w : World) : Prop :=
  w.queue.inFlight.Perm (flightIds w.queue.entries)

theorem flightIds_concat {e : QueueEntry} (he : e.status ≠ .inFlight) :
    flightIds (es ++ [e]) = flightIds es := by
  unfold flightIds
  rw [List.filter_append, List.filter_singleton, decide_eq_false he]
  exact congrArg _ (List.append_nil _)

theorem flightIds_cons (e : QueueEntry) (es : List QueueEntry) :
    flightIds (e :: es) =
      if e.status = .inFlight then e.mutationId :: flightIds es else flightIds es := by
  unfold flightIds
  rw [List.filter_cons]
  split_ifs with h h' h'
  · rfl
  · exact absurd (of_decide_eq_true h) h'
  · exact absurd (decide_eq_true h') h
  · rfl

theorem flightIds_fly {e : QueueEntry} {place : Nat} (he : es[place]? = some e)
    (hqueued : e.status ≠ .inFlight) :
    (flightIds (es.modify place fun e => { e with status := .inFlight })).Perm
      (flightIds es ++ [e.mutationId]) := by
  induction es generalizing place with
  | nil => cases he
  | cons f es ih =>
    cases place with
    | zero =>
      obtain rfl := Option.some.inj he
      rw [List.modify_zero_cons, flightIds_cons, if_pos rfl, flightIds_cons, if_neg hqueued]
      exact (List.perm_append_singleton _ _).symm
    | succ place =>
      rw [List.modify_succ_cons, flightIds_cons, flightIds_cons]
      split_ifs
      · exact (ih he).cons _
      · exact ih he

theorem flightIds_complete {e : QueueEntry} {place : Nat} (he : es[place]? = some e)
    (hflight : e.status = .inFlight) :
    (flightIds es).Perm
      (e.mutationId :: flightIds (es.modify place fun e => { e with status := .completed })) := by
  induction es generalizing place with
  | nil => cases he
  | cons f es ih =>
    cases place with
    | zero =>
      obtain rfl := Option.some.inj he
      rw [List.modify_zero_cons, flightIds_cons, if_pos hflight, flightIds_cons,
        if_neg fun h => by cases h]
    | succ place =>
      rw [List.modify_succ_cons, flightIds_cons, flightIds_cons]
      split_ifs
      · exact ((ih he).cons _).trans (List.Perm.swap _ _ _)
      · exact ih he

/-! ### Looking for an id -/

def FirstOfId (es : List QueueEntry) (place : Nat) (mutationId : Str) : Prop :=
  ∀ i < place, ∀ f, es[i]? = some f → f.mutationId ≠ mutationId

theorem findEntry_eq (q : Queue) (mutationId : Str) :
    q.findEntry mutationId = q.entries[q.entries.findIdx fun e => e.mutationId = mutationId]? :=
  List.find?_eq_getElem?_findIdx ..

theorem findIdx_eq_iff {e : QueueEntry} {place : Nat} (he : es[place]? = some e) :
    (es.findIdx fun f => f.mutationId = e.mutationId) = place ↔
      FirstOfId es place e.mutationId := by
  obtain ⟨hlt, rfl⟩ := List.getElem?_eq_some_iff.mp he
  rw [List.findIdx_eq hlt]
  constructor
  · rintro ⟨-, hbefore⟩ i hi f hf hid
    obtain ⟨hlen, rfl⟩ := List.getElem?_eq_some_iff.mp hf
    have := hbefore i hi
    rw [hid, decide_eq_true rfl] at this
    cases this
  · intro hfirst
    refine ⟨decide_eq_true rfl, fun i hi => decide_eq_false ?_⟩
    exact hfirst i hi es[i] (List.getElem?_eq_getElem (hi.trans hlt))

theorem firstOfId_modify {place i : Nat} {mutationId : Str} {status : EntryStatus} :
    FirstOfId (es.modify i fun e => { e with status := status }) place mutationId ↔
      FirstOfId es place mutationId := by
  unfold FirstOfId
  refine forall₂_congr fun j _ => ?_
  rw [getElem?_setStatus]
  cases es[j]? with
  | none => exact iff_of_true (fun _ h => by cases h) fun _ h => by cases h
  | some g =>
    rw [Option.map_some]
    have hid : (if i = j then { g with status := status } else g).mutationId = g.mutationId := by
      split_ifs <;> rfl
    constructor
    · intro h f hf
      rw [← Option.some.inj hf, ← hid]
      exact h _ rfl
    · intro h f hf
      rw [← Option.some.inj hf, hid]
      exact h g rfl

/-! ### Completing an entry -/

variable (P hmacSecret w) in
/-- `complete` with the id of the entry at the place moves this entry to `COMPLETED`. -/
def Releases (place : Nat) (e : QueueEntry) : Prop :=
  ∀ outcome fault,
    (complete P hmacSecret w fault e.mutationId outcome).1.queue.entries[place]? =
        some { e with status := .completed } ∧
      (fault = none → (complete P hmacSecret w fault e.mutationId outcome).2 =
        .ok { e with status := .completed })

variable (P hmacSecret) in
theorem complete_of_findEntry {e : QueueEntry} {mutationId : Str}
    (hfind : w.queue.findEntry mutationId = some e) (hflight : e.status = .inFlight)
    (fault : Option Str) (outcome : CompletionOutcome) :
    ∃ w' extra, complete P hmacSecret w fault mutationId outcome =
        appendLedger P w' fault (str "COMPLETE") mutationId extra { e with status := .completed } ∧
      w'.queue.entries = w.queue.entries.modify
        (w.queue.entries.findIdx fun e => e.mutationId = mutationId)
        (fun e => { e with status := .completed }) ∧
      w'.queue.inFlight = w.queue.inFlight.erase mutationId := by
  unfold complete
  rw [hfind]
  dsimp only
  rw [if_pos hflight]
  exact ⟨_, _, rfl, rfl, rfl⟩

theorem complete_of_not_inFlight {mutationId : Str}
    (h : ∀ e, w.queue.findEntry mutationId = some e → e.status ≠ .inFlight) (fault : Option Str)
    (outcome : CompletionOutcome) : (complete P hmacSecret w fault mutationId outcome).1 = w := by
  unfold complete
  split
  · rfl
  · next e he => rw [if_neg (h e he)]

theorem releases_iff {e : QueueEntry} {place : Nat} (he : w.queue.entries[place]? = some e)
    (hflight : e.status = .inFlight) :
    Releases P hmacSecret w place e ↔ FirstOfId w.queue.entries place e.mutationId := by
  rw [← findIdx_eq_iff he]
  constructor
  · intro h
    have hmoved := (h .promoted none).1
    by_contra hne
    by_cases hfirst : ∀ f, w.queue.findEntry e.mutationId = some f → f.status ≠ .inFlight
    · rw [complete_of_not_inFlight hfirst, he] at hmoved
      have hstatus := congrArg QueueEntry.status (Option.some.inj hmoved)
      rw [hflight] at hstatus
      cases hstatus
    · push Not at hfirst
      obtain ⟨f, hfind, hf⟩ := hfirst
      obtain ⟨w', extra, hcomplete, hentries, -⟩ := complete_of_findEntry P hmacSecret
        hfind hf none .promoted
      rw [hcomplete, queue_appendLedger, hentries, getElem?_setStatus, he, Option.map_some,
        if_neg hne] at hmoved
      have hstatus := congrArg QueueEntry.status (Option.some.inj hmoved)
      rw [hflight] at hstatus
      cases hstatus
  · intro hplace outcome fault
    have hfind : w.queue.findEntry e.mutationId = some e := by rw [findEntry_eq, hplace, he]
    obtain ⟨w', extra, hcomplete, hentries, -⟩ := complete_of_findEntry P hmacSecret
      hfind hflight fault outcome
    rw [hcomplete, queue_appendLedger, hentries, getElem?_setStatus, he, Option.map_some,
      if_pos hplace]
    refine ⟨rfl, ?_⟩
    rintro rfl
    rfl

/-! ### Steps -/

theorem tallied_step (hmacSecret : Bytes) (call : Call) (h : Tallied w) :
    Tallied (step P hmacSecret w call) := by
  cases call with
  | enqueue r fault =>
    show Tallied (enqueue P hmacSecret w fault r).1
    unfold enqueue
    split
    · exact h
    · unfold Tallied
      rw [queue_appendLedger]
      refine h.trans (List.Perm.of_eq (flightIds_concat ?_).symm)
      exact fun hstatus => by cases hstatus
  | dequeue fault =>
    show Tallied (dequeue P hmacSecret w fault).1
    unfold dequeue
    split_ifs
    · split
      · exact h
      · next e place hpeek =>
        obtain ⟨he, hqueued⟩ := peek_eq_some hpeek
        have hne : e.status ≠ .inFlight := by
          rw [hqueued]
          exact fun heq => by cases heq
        unfold Tallied
        rw [queue_appendLedger]
        exact (h.append_right _).trans (flightIds_fly he hne).symm
    · exact h
  | complete mutationId outcome fault =>
    show Tallied (complete P hmacSecret w fault mutationId outcome).1
    by_cases hfirst : ∀ f, w.queue.findEntry mutationId = some f → f.status ≠ .inFlight
    · rw [complete_of_not_inFlight hfirst]
      exact h
    · push Not at hfirst
      obtain ⟨f, hfind, hf⟩ := hfirst
      obtain ⟨w', extra, hcomplete, hentries, hids⟩ := complete_of_findEntry P hmacSecret
        hfind hf fault outcome
      have hfound := List.find?_some hfind
      have hid : f.mutationId = mutationId := of_decide_eq_true hfound
      rw [findEntry_eq] at hfind
      have hperm := h.trans (flightIds_complete hfind hf)
      rw [hcomplete]
      unfold Tallied
      rw [queue_appendLedger, hentries, hids]
      have herase := hperm.erase mutationId
      rw [hid, List.erase_cons_head] at herase
      exact herase
  | reset seed => exact h

/-- Every entry in flight is the first of its id. -/
def FlightsFirst (es : List QueueEntry) : Prop :=
  ∀ place e, es[place]? = some e → e.status = .inFlight → FirstOfId es place e.mutationId

theorem flightsFirst_concat {e : QueueEntry} (he : e.status ≠ .inFlight) (h : FlightsFirst es) :
    FlightsFirst (es ++ [e]) := by
  intro place f hf hflight
  have hlt : place < es.length := by
    by_contra hge
    rw [List.getElem?_append_right (not_lt.mp hge)] at hf
    have hmem := List.mem_singleton.mp (List.mem_of_getElem? hf)
    exact he (hmem ▸ hflight)
  rw [List.getElem?_append_left hlt] at hf
  intro i hi g hg
  rw [List.getElem?_append_left (hi.trans hlt)] at hg
  exact h place f hf hflight i hi g hg

theorem flightsFirst_complete (place : Nat) (h : FlightsFirst es) :
    FlightsFirst (es.modify place fun e => { e with status := .completed }) := by
  intro i f hf hflight
  rw [firstOfId_modify]
  rw [getElem?_setStatus] at hf
  obtain ⟨g, hg, rfl⟩ := Option.map_eq_some_iff.mp hf
  split_ifs at hflight ⊢ with heq
  · exact h i g hg hflight

theorem flightsFirst_fly_iff {e : QueueEntry} {place : Nat} (he : es[place]? = some e)
    (h : FlightsFirst es) :
    FlightsFirst (es.modify place fun e => { e with status := .inFlight }) ↔
      FirstOfId es place e.mutationId := by
  constructor
  · intro hfly
    have hplace : (es.modify place fun e => { e with status := .inFlight })[place]? =
        some { e with status := .inFlight } := by
      rw [getElem?_setStatus, he, Option.map_some, if_pos rfl]
    have hfirst := hfly place { e with status := .inFlight } hplace rfl
    exact firstOfId_modify.mp hfirst
  · intro hfirst i f hf hflight
    rw [firstOfId_modify]
    rw [getElem?_setStatus] at hf
    obtain ⟨g, hg, rfl⟩ := Option.map_eq_some_iff.mp hf
    by_cases hi : place = i
    · rw [if_pos hi]
      rw [← hi, he] at hg
      obtain rfl := Option.some.inj hg
      rw [← hi]
      exact hfirst
    · rw [if_neg hi] at hflight ⊢
      exact h i g hg hflight

variable (P) in
/-- A call of `dequeue` takes out an entry that no earlier one has the id of. -/
def Unshadowed (w : World) : Call → Prop
  | .dequeue _ => verifyChain P w.ledger = true → ∀ e ∈ w.queue.peek,
      FirstOfId w.queue.entries e.2 e.1.mutationId
  | _ => True

theorem flightsFirst_step_iff (call : Call) (h : FlightsFirst w.queue.entries) :
    FlightsFirst (step P hmacSecret w call).queue.entries ↔ Unshadowed P w call := by
  cases call with
  | enqueue r fault =>
    refine iff_of_true ?_ trivial
    show FlightsFirst (enqueue P hmacSecret w fault r).1.queue.entries
    unfold enqueue
    split
    · exact h
    · rw [queue_appendLedger]
      exact flightsFirst_concat (fun hstatus => by cases hstatus) h
  | dequeue fault =>
    show FlightsFirst (dequeue P hmacSecret w fault).1.queue.entries ↔ _
    unfold dequeue Unshadowed
    by_cases hchain : verifyChain P w.ledger = true
    · rw [if_pos hchain]
      rcases hpeek : w.queue.peek with _ | ⟨e, place⟩
      · exact iff_of_true h fun _ _ hx => by cases hx
      · obtain ⟨he, -⟩ := peek_eq_some hpeek
        dsimp only
        rw [queue_appendLedger]
        refine (flightsFirst_fly_iff he h).trans ?_
        constructor
        · intro hfirst _ x hx
          obtain rfl := Option.some.inj hx
          exact hfirst
        · exact fun hfirst => hfirst hchain _ rfl
    · rw [if_neg hchain]
      exact iff_of_true h fun hok => absurd hok hchain
  | complete mutationId outcome fault =>
    refine iff_of_true ?_ trivial
    show FlightsFirst (complete P hmacSecret w fault mutationId outcome).1.queue.entries
    unfold complete
    split
    · exact h
    · split_ifs
      · rw [queue_appendLedger]
        exact flightsFirst_complete _ h
      · exact h
  | reset seed => exact iff_of_true h trivial

/-! ### Runs -/

variable (P hmacSecret) in
/-- Every entry in flight can be completed, and when there is none no path is locked. -/
structure Releasable (w : World) : Prop where
  releases : ∀ place e, w.queue.entries[place]? = some e → e.status = .inFlight →
    Releases P hmacSecret w place e
  released : (∀ e ∈ w.queue.entries, e.status ≠ .inFlight) →
    w.queue.inFlight = [] ∧ ∀ paths, w.queue.hasOverlap paths = false

theorem Tallied.released (h : Tallied w) (hnone : ∀ e ∈ w.queue.entries, e.status ≠ .inFlight) :
    w.queue.inFlight = [] ∧ ∀ paths, w.queue.hasOverlap paths = false := by
  have hids : flightIds w.queue.entries = [] := by
    unfold flightIds
    rw [List.map_eq_nil_iff, List.filter_eq_nil_iff]
    exact fun e he hflight => hnone e he (of_decide_eq_true hflight)
  unfold Tallied at h
  rw [hids] at h
  have hnil := h.eq_nil
  refine ⟨hnil, fun paths => ?_⟩
  unfold Queue.hasOverlap pathsOverlap
  rw [hnil]
  simp

theorem releasable_iff_flightsFirst (h : Tallied w) :
    Releasable P hmacSecret w ↔ FlightsFirst w.queue.entries := by
  constructor
  · exact fun hw place e he hflight => (releases_iff he hflight).mp (hw.releases place e he hflight)
  · intro hfirst
    exact ⟨fun place e he hflight => (releases_iff he hflight).mpr (hfirst place e he hflight),
      h.released⟩

/-- In every run from a new queue, all entries in flight can be completed in every state exactly
when every call of `dequeue` takes out an entry that no earlier one has the id of. -/
theorem releasable_iff (hmacSecret : Bytes) (epochCounter : Int) (ledger : Option Bytes)
    (calls : List Call) :
    Always (step P hmacSecret) (Releasable P hmacSecret)
        (initial P hmacSecret epochCounter ledger) calls ↔
      Meets (step P hmacSecret) (Unshadowed P) (initial P hmacSecret epochCounter ledger)
        calls := by
  have htallied : Tallied (initial P hmacSecret epochCounter ledger) := List.Perm.nil
  have hfirst : FlightsFirst (initial P hmacSecret epochCounter ledger).queue.entries :=
    fun place e he _ => by cases he
  refine always_iff_meets_of_invariant (J := Tallied)
    (fun w call h => tallied_step hmacSecret call h) ?_ htallied
    ((releasable_iff_flightsFirst htallied).mpr hfirst)
  intro w call hw hrel
  rw [releasable_iff_flightsFirst (tallied_step hmacSecret call hw)]
  exact flightsFirst_step_iff call ((releasable_iff_flightsFirst hw).mp hrel)

/-! ### An id that is used twice -/

/-- A mutation is enqueued twice, the second time for a smaller blast tier. -/
def resubmitted : List Call :=
  [.enqueue (request (str "1")) none, .enqueue { request (str "1") with blastTier := 0 } none]

/-- In general an entry in flight cannot always be completed. -/
theorem not_releasable : ¬ ∀ (hmacSecret : Bytes) (epochCounter : Int) (ledger : Option Bytes)
    (calls : List Call), Always (step reference hmacSecret) (Releasable reference hmacSecret)
      (initial reference hmacSecret epochCounter ledger) calls := by
  intro h
  have halways := (h [] 0 none (resubmitted ++ [.dequeue none])).last
  have hchain := verifyChain_run (P := reference) [] 0 resubmitted
  rw [run_append, run_cons, run_nil, step_dequeue] at halways
  have hpeek : (run (step reference []) (initial reference [] 0 none) resubmitted).queue.peek =
      some (newEntry reference [] { request (str "1") with blastTier := 0 } 3, 1) := rfl
  have hentries := entries_dequeue [] none hchain hpeek
  have hplace : (dequeue reference [] (run (step reference []) (initial reference [] 0 none)
      resubmitted) none).1.queue.entries[1]? =
      some { newEntry reference [] { request (str "1") with blastTier := 0 } 3 with
        status := .inFlight } := by
    rw [hentries]
    rfl
  have hfirst := (releases_iff hplace rfl).mp (halways.releases 1 _ hplace rfl)
  refine hfirst 0 Nat.zero_lt_one (newEntry reference [] (request (str "1")) 1) ?_ rfl
  rw [hentries]
  rfl

end Adaad.MutationQueue
