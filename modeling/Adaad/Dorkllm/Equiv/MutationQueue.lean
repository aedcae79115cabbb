import Adaad.Dorkllm.MutationQueue
import Adaad.Py.Json.Equiv.Ascii
import Adaad.Py.Json.Equiv.Sort
import Adaad.Py.Reference

/-!
# Mutations in flight

The entries in flight never overlap exactly when no call of `dequeue` takes out an entry that
overlaps with one of them (`disjoint_iff`): `enqueue` compares the paths of a new entry with those
in flight at that time, but two entries that wait together are compared with nothing.

A ledger that the queue has written passes the check before every `dequeue`
(`verifyChain_eventLines`).
-/

namespace Adaad.MutationQueue

open Py Run

variable {P : Platform} {hmacSecret : Bytes} {w : World} {es : List QueueEntry}

/-! ### Paths -/

theorem pathsOverlap_comm (ps qs : List Str) : pathsOverlap ps qs = pathsOverlap qs ps := by
  rw [Bool.eq_iff_iff]
  simp only [pathsOverlap, List.any_eq_true, Bool.or_eq_true]
  constructor
  · rintro ⟨p, hp, q, hq, h⟩
    exact ⟨q, hq, p, hp, h.symm⟩
  · rintro ⟨p, hp, q, hq, h⟩
    exact ⟨q, hq, p, hp, h.symm⟩

/-! ### Entries -/

theorem disjoint_append {e : QueueEntry} (he : e.status ≠ .inFlight) (h : Disjoint es) :
    Disjoint (es ++ [e]) := by
  -- The new entry is not in flight, so both entries are old ones.
  have hold : ∀ (i : Nat) (f : QueueEntry), (es ++ [e])[i]? = some f → f.status = .inFlight →
      es[i]? = some f := by
    intro i f hf hflight
    rw [List.getElem?_append] at hf
    split_ifs at hf with hlt
    · exact hf
    · have hmem := List.mem_of_getElem? hf
      rw [List.mem_singleton] at hmem
      exact absurd hflight (hmem ▸ he)
  intro i j f g hne hf hg hff hgf
  exact h i j f g hne (hold i f hf hff) (hold j g hg hgf) hff hgf

theorem getElem?_setStatus (es : List QueueEntry) (place i : Nat) (status : EntryStatus) :
    (es.modify place fun e => { e with status := status })[i]? =
      es[i]?.map fun e => if place = i then { e with status := status } else e := by
  rw [List.getElem?_modify]
  split_ifs <;> rfl

theorem disjoint_complete (place : Nat) (h : Disjoint es) :
    Disjoint (es.modify place fun e => { e with status := .completed }) := by
  have hold : ∀ (i : Nat) (f : QueueEntry),
      (es.modify place fun e => { e with status := .completed })[i]? = some f →
      f.status = .inFlight → es[i]? = some f := by
    intro i f hf hflight
    rw [getElem?_setStatus] at hf
    obtain ⟨g, hg, rfl⟩ := Option.map_eq_some_iff.mp hf
    split_ifs at hflight ⊢ with heq
    exact hg
  intro i j f g hne hf hg hff hgf
  exact h i j f g hne (hold i f hf hff) (hold j g hg hgf) hff hgf

theorem disjoint_fly_iff {e : QueueEntry} {place : Nat} (he : es[place]? = some e)
    (hqueued : e.status = .queued) (h : Disjoint es) :
    Disjoint (es.modify place fun e => { e with status := .inFlight }) ↔
      ∀ f ∈ es, f.status = .inFlight → pathsOverlap e.scopePaths f.scopePaths = false := by
  have hplace : (es.modify place fun e => { e with status := .inFlight })[place]? =
      some { e with status := .inFlight } := by
    rw [getElem?_setStatus, he, Option.map_some, if_pos rfl]
  have hother : ∀ {i : Nat}, place ≠ i →
      (es.modify place fun e => { e with status := .inFlight })[i]? = es[i]? := by
    intro i hne
    rw [getElem?_setStatus]
    simp only [if_neg hne, Option.map_id']
  constructor
  · intro hfly f hf hflight
    obtain ⟨i, hi⟩ := List.mem_iff_getElem?.mp hf
    have hne : place ≠ i := by
      rintro rfl
      obtain rfl := Option.some.inj (he.symm.trans hi)
      exact nomatch hqueued.symm.trans hflight
    exact hfly place i { e with status := .inFlight } f hne hplace ((hother hne).trans hi) rfl
      hflight
  · intro hfree i j f g hne hf hg hff hgf
    by_cases hi : place = i
    · have hj : place ≠ j := fun heq => hne (hi.symm.trans heq)
      rw [← hi, hplace] at hf
      obtain rfl := Option.some.inj hf
      rw [hother hj] at hg
      exact hfree g (List.mem_of_getElem? hg) hgf
    · rw [hother hi] at hf
      by_cases hj : place = j
      · rw [← hj, hplace] at hg
        obtain rfl := Option.some.inj hg
        rw [pathsOverlap_comm]
        exact hfree f (List.mem_of_getElem? hf) hff
      · rw [hother hj] at hg
        exact h i j f g hne hf hg hff hgf

theorem peek_eq_some {q : Queue} {e : QueueEntry} {place : Nat} (h : q.peek = some (e, place)) :
    q.entries[place]? = some e ∧ e.status = .queued := by
  have hmem := List.mem_of_mem_head? h
  rw [List.mem_insertionSort, List.mem_filter, decide_eq_true_eq] at hmem
  exact ⟨(List.mk_mem_zipIdx_iff_getElem? ..).mp hmem.1, hmem.2⟩

/-! ### Calls -/

@[simp] theorem queue_appendLedger (w : World) (fault : Option Str) (eventType mutationId : Str)
    (extra : Members P.Float) (result : QueueEntry) :
    (appendLedger P w fault eventType mutationId extra result).1.queue = w.queue := by
  unfold appendLedger
  cases fault <;> rfl

theorem disjoint_enqueue (fault : Option Str) (r : EnqueueRequest)
    (h : Disjoint w.queue.entries) :
    Disjoint (enqueue P hmacSecret w fault r).1.queue.entries := by
  unfold enqueue
  split
  · exact h
  · rw [queue_appendLedger]
    exact disjoint_append nofun h

theorem disjoint_dequeue_iff (fault : Option Str) (h : Disjoint w.queue.entries) :
    Disjoint (dequeue P hmacSecret w fault).1.queue.entries ↔ Free P w (.dequeue fault) := by
  unfold dequeue Free
  by_cases hchain : verifyChain P w.ledger = true
  · rw [if_pos hchain]
    rcases hpeek : w.queue.peek with _ | ⟨e, place⟩
    · exact iff_of_true h fun _ => nofun
    · obtain ⟨he, hqueued⟩ := peek_eq_some hpeek
      dsimp only
      rw [queue_appendLedger]
      refine (disjoint_fly_iff he hqueued h).trans ?_
      constructor
      · intro hfree _ x hx
        obtain rfl := Option.some.inj hx
        exact hfree
      · exact fun hfree => hfree hchain _ rfl
  · rw [if_neg hchain]
    exact iff_of_true h fun hok => absurd hok hchain

theorem disjoint_completeCall (fault : Option Str) (mutationId : Str) (outcome : CompletionOutcome)
    (h : Disjoint w.queue.entries) :
    Disjoint (complete P hmacSecret w fault mutationId outcome).1.queue.entries := by
  unfold complete
  split
  · exact h
  · split_ifs
    · rw [queue_appendLedger]
      exact disjoint_complete _ h
    · exact h

theorem disjoint_step_iff (call : Call) (h : Disjoint w.queue.entries) :
    Disjoint (step P hmacSecret w call).queue.entries ↔ Free P w call := by
  cases call with
  | enqueue r fault => exact iff_of_true (disjoint_enqueue fault r h) trivial
  | dequeue fault => exact disjoint_dequeue_iff fault h
  | complete mutationId outcome fault =>
    exact iff_of_true (disjoint_completeCall fault mutationId outcome h) trivial
  | reset seed => exact iff_of_true h trivial

variable (P) in
/-- A new queue, with any counter and ledger file. -/
def initial (hmacSecret : Bytes) (epochCounter : Int) (ledger : Option Bytes) : World :=
  ⟨newQueue P hmacSecret, epochCounter, ledger⟩

/-- In every run from a new queue, the entries in flight never overlap exactly when every call of
`dequeue` takes out an entry that overlaps with none in flight. -/
theorem disjoint_iff (hmacSecret : Bytes) (epochCounter : Int) (ledger : Option Bytes)
    (calls : List Call) :
    Always (step P hmacSecret) (fun w => Disjoint w.queue.entries)
        (initial P hmacSecret epochCounter ledger) calls ↔
      Meets (step P hmacSecret) (Free P) (initial P hmacSecret epochCounter ledger) calls := by
  refine always_iff_meets (fun w call h => disjoint_step_iff call h) ?_
  intro i j e f _ he
  exact nomatch he

/-! ### The check of the ledger -/

theorem exists_sortedJson (L : Layout) {e : Members P.Float} (h : (Value.dict e).Plain) :
    ∃ e', sortedJson P L (.dict e) = dumpsAscii P L (.dict e') := by
  obtain ⟨v, hv⟩ := exists_sortKeys P h
  obtain ⟨ms, -, -, rfl⟩ := (sortKeys_dict_eq_some P).mp hv
  refine ⟨sortMembers P ms, ?_⟩
  unfold sortedJson dumpsSortedAscii dumpsSorted
  rw [hv]
  rfl

theorem encode_eventLines {events : List (Members P.Float)}
    (h : ∀ e ∈ events, (Value.dict e).Plain) :
    encode ((events.map fun e => sortedJson P .spaced (.dict e)).flatMap (· ++ [lf])) =
      some (events.flatMap fun e => eventLine P (.dict e)) := by
  induction events with
  | nil => rfl
  | cons e events ih =>
    obtain ⟨he, hrest⟩ := List.forall_mem_cons.mp h
    obtain ⟨e', he'⟩ := exists_sortedJson .spaced he
    obtain ⟨b, hb⟩ := exists_encode_dumpsAscii P .spaced (.dict e')
    have hline : encode (sortedJson P .spaced (.dict e) ++ [lf]) = some (b ++ [10]) := by
      rw [he', encode_append_eq_some]
      exact ⟨b, [10], hb, rfl, rfl⟩
    rw [List.map_cons, List.flatMap_cons, List.flatMap_cons, encode_append_eq_some]
    refine ⟨b ++ [10], _, hline, ih hrest, ?_⟩
    unfold eventLine encodeAscii
    rw [hline, Option.getD_some]

theorem splitLines_eventLines {events : List (Members P.Float)}
    (h : ∀ e ∈ events, (Value.dict e).Plain) :
    splitLines newline ((events.map fun e =>
        sortedJson P .spaced (.dict e)).flatMap (· ++ [lf])) =
      events.map (fun e => sortedJson P .spaced (.dict e)) ∧
    ∀ e ∈ events, sortedJson P .spaced (.dict e) ≠ [] ∧
      strip (sortedJson P .spaced (.dict e)) = sortedJson P .spaced (.dict e) := by
  have hline : ∀ e ∈ events, sortedJson P .spaced (.dict e) ≠ [] ∧
      (∀ c ∈ sortedJson P .spaced (.dict e), newline c = false) ∧
      strip (sortedJson P .spaced (.dict e)) = sortedJson P .spaced (.dict e) := by
    intro e he
    obtain ⟨e', he'⟩ := exists_sortedJson .spaced (h e he)
    rw [he']
    refine ⟨fun hnil => ?_, fun c hc => newline_eq_false_of_mem_dumpsAscii P hc,
      strip_dumpsAscii_dict P .spaced e'⟩
    obtain ⟨t, ht⟩ := exists_dumps_dict (P := P) .spaced e'
    unfold dumpsAscii at hnil
    rw [ht] at hnil
    exact nomatch hnil
  constructor
  · refine splitLines_flatMap newline_lf fun l hl => ?_
    obtain ⟨e, he, rfl⟩ := List.mem_map.mp hl
    exact ⟨(hline e he).1, (hline e he).2.1⟩
  · exact fun e he => ⟨(hline e he).1, (hline e he).2.2⟩

theorem exists_loads_sortedJson {e : Members P.Float} (h : (Value.dict e).Plain) :
    ∃ v, loads P (sortedJson P .spaced (.dict e)) = some v := by
  obtain ⟨e', he'⟩ := exists_sortedJson .spaced h
  rw [he', loads_dumpsAscii]
  exact ⟨_, rfl⟩

theorem verifyChain_eventLines {events : List (Members P.Float)}
    (h : ∀ e ∈ events, (Value.dict e).Plain) :
    verifyChain P (some (events.flatMap fun e => eventLine P (.dict e))) = true := by
  obtain ⟨hsplit, hstrip⟩ := splitLines_eventLines h
  unfold verifyChain
  dsimp only
  rw [readLines_of_decode P (decode_encode (encode_eventLines h)), hsplit, Bool.true_and,
    List.all_eq_true]
  intro l hl
  obtain ⟨e, he, rfl⟩ := List.mem_map.mp hl
  obtain ⟨v, hv⟩ := exists_loads_sortedJson (h e he)
  rw [(hstrip e he).2, hv]
  exact Bool.or_true _

variable (P) in
/-- The ledger is what the queue itself has written. -/
def Written (w : World) : Prop :=
  ∃ events : List (Members P.Float), (∀ e ∈ events, (Value.dict e).Plain) ∧
    w.ledger.getD [] = events.flatMap fun e => eventLine P (.dict e)

theorem Written.verifyChain (h : Written P w) : verifyChain P w.ledger = true := by
  obtain ⟨events, hplain, hledger⟩ := h
  rcases hw : w.ledger with _ | b
  · rfl
  · rw [hw, Option.getD_some] at hledger
    rw [hledger]
    exact verifyChain_eventLines hplain

theorem exists_buildEvent (q : Queue) (now : Int) (eventType mutationId : Str)
    {extra : Members P.Float} (hextra : (Value.dict extra).Plain) :
    ∃ event, buildEvent P q now eventType mutationId extra = .dict event ∧
      (Value.dict event).Plain :=
  ⟨_, rfl, rfl, trivial, rfl, trivial, rfl, trivial, rfl, trivial, rfl, trivial, rfl, trivial,
    hextra⟩

theorem written_appendLedger {fault : Option Str} {eventType mutationId : Str}
    {extra : Members P.Float} {result : QueueEntry} (h : Written P w)
    (hextra : (Value.dict extra).Plain) :
    Written P (appendLedger P w fault eventType mutationId extra result).1 := by
  unfold appendLedger
  cases fault with
  | some message => exact h
  | none =>
    obtain ⟨events, hplain, hledger⟩ := h
    obtain ⟨event, hbuilt, hevent⟩ := exists_buildEvent w.queue (w.epochCounter + 1) eventType
      mutationId hextra
    refine ⟨events ++ [event], fun e he => ?_, ?_⟩
    · rcases List.mem_append.mp he with he | he
      · exact hplain e he
      · exact List.mem_singleton.mp he ▸ hevent
    · rw [List.flatMap_append, ← hledger, List.flatMap_singleton, ← hbuilt]
      rfl

theorem written_step (hmacSecret : Bytes) (call : Call) (h : Written P w) :
    Written P (step P hmacSecret w call) := by
  cases call with
  | enqueue r fault =>
    show Written P (enqueue P hmacSecret w fault r).1
    unfold enqueue
    split
    · exact h
    · exact written_appendLedger h ⟨rfl, trivial, rfl, trivial, rfl, trivial, rfl, trivial, trivial⟩
  | dequeue fault =>
    show Written P (dequeue P hmacSecret w fault).1
    unfold dequeue
    split_ifs
    · split
      · exact h
      · exact written_appendLedger h ⟨rfl, trivial, rfl, trivial, trivial⟩
    · exact h
  | complete mutationId outcome fault =>
    show Written P (complete P hmacSecret w fault mutationId outcome).1
    unfold complete
    split
    · exact h
    · split_ifs
      · exact written_appendLedger h ⟨rfl, trivial, rfl, trivial, trivial⟩
      · exact h
  | reset seed => exact h

theorem verifyChain_run (hmacSecret : Bytes) (epochCounter : Int) (calls : List Call) :
    verifyChain P (run (step P hmacSecret) (initial P hmacSecret epochCounter none) calls).ledger =
      true := by
  have hwritten := always_of_forall_step (fun w call h => written_step hmacSecret call h)
    (⟨[], nofun, rfl⟩ : Written P (initial P hmacSecret epochCounter none)) calls
  exact hwritten.last.verifyChain

/-! ### Two entries that wait together -/

theorem step_dequeue (w : World) (fault : Option Str) :
    step P hmacSecret w (.dequeue fault) = (dequeue P hmacSecret w fault).1 := rfl

theorem entries_dequeue (hmacSecret : Bytes) {e : QueueEntry} {place : Nat} (fault : Option Str)
    (hchain : verifyChain P w.ledger = true) (hpeek : w.queue.peek = some (e, place)) :
    (dequeue P hmacSecret w fault).1.queue.entries =
      w.queue.entries.modify place fun e => { e with status := .inFlight } := by
  unfold dequeue
  rw [if_pos hchain, hpeek]
  dsimp only
  rw [queue_appendLedger]
  rfl

def request (mutationId : Str) : EnqueueRequest where
  mutationId := mutationId
  intentDeclarationId := str "i"
  author := str "DreamAgent"
  blastTier := 1
  scopePaths := [str "a"]
  governanceObjectives := []
  human0Override := false

/-- Two mutations of one path are enqueued; then both are taken out. -/
def together : List Call :=
  [.enqueue (request (str "1")) none, .enqueue (request (str "2")) none]

def waiting : List QueueEntry :=
  [newEntry reference [] (request (str "1")) 1, newEntry reference [] (request (str "2")) 3]

theorem not_disjoint_of_waiting {w : World} (hentries : w.queue.entries = waiting)
    (hchain : verifyChain reference w.ledger = true)
    (hchain' : verifyChain reference (dequeue reference [] w none).1.ledger = true) :
    ¬ Disjoint (dequeue reference [] (dequeue reference [] w none).1 none).1.queue.entries := by
  have hpeek : w.queue.peek = some (newEntry reference [] (request (str "1")) 1, 0) := by
    unfold Queue.peek
    rw [hentries]
    rfl
  have hentries' := entries_dequeue [] none hchain hpeek
  have hpeek' : (dequeue reference [] w none).1.queue.peek =
      some (newEntry reference [] (request (str "2")) 3, 1) := by
    unfold Queue.peek
    rw [hentries', hentries]
    rfl
  rw [entries_dequeue [] none hchain' hpeek', hentries', hentries]
  intro h
  exact absurd (h 0 1 _ _ (by decide) rfl rfl rfl rfl) (by decide)

/-- In general entries in flight can overlap. -/
theorem not_disjoint : ¬ ∀ (hmacSecret : Bytes) (epochCounter : Int) (ledger : Option Bytes)
    (calls : List Call), Disjoint
      (run (step reference hmacSecret) (initial reference hmacSecret epochCounter ledger)
        calls).queue.entries := by
  intro h
  have hdisjoint := h [] 0 none (together ++ [.dequeue none, .dequeue none])
  have hchain := verifyChain_run (P := reference) [] 0 together
  have hchain' := verifyChain_run (P := reference) [] 0 (together ++ [.dequeue none])
  rw [run_append, run_cons, run_cons, run_nil, step_dequeue, step_dequeue] at hdisjoint
  rw [run_append, run_cons, run_nil, step_dequeue] at hchain'
  exact not_disjoint_of_waiting rfl hchain hchain' hdisjoint

end Adaad.MutationQueue

/-!
## A changed ledger of the queue

`_verify_chain` reads the events and compares the HMAC that it derives from them with nothing.  So
every ledger whose events can be read passes (`verifyChain_eq`), and after a run the check tells the
ledger that the run has written from another one exactly when it is that ledger
(`detects_iff_unchanged`).
-/

namespace Adaad.MutationQueue

open Py Run

variable {P : Platform} {hmacSecret : Bytes} {w : World}

/-! ### The events of a ledger -/

theorem isSome_mapM {α β : Type} (f : α → Option β) (xs : List α) :
    (xs.mapM f).isSome = xs.all fun x => (f x).isSome := by
  induction xs with
  | nil => rfl
  | cons x xs ih =>
    rw [List.mapM_cons, List.all_cons, ← ih]
    cases f x with
    | none => rfl
    | some y =>
      show (xs.mapM f >>= fun ys => pure (y :: ys)).isSome = _
      cases xs.mapM f <;> rfl

variable (P) in
theorem verifyChain_eq (ledger : Option Bytes) :
    verifyChain P ledger = (exportLedger P ledger).isSome := by
  cases ledger with
  | none => rfl
  | some b =>
    unfold verifyChain exportLedger
    dsimp only
    by_cases hend : (readLines P b).2 = true
    · rw [if_pos hend, hend, Bool.true_and, isSome_mapM, List.all_filter, List.all_map]
      congr 1
      funext line
      by_cases hblank : strip line = [] <;> simp [hblank]
    · rw [if_neg hend, Bool.eq_false_of_not_eq_true hend]
      rfl

theorem exportLedger_eventLines {events : List (Members P.Float)}
    (h : ∀ e ∈ events, (Value.dict e).Plain) :
    exportLedger P (some (events.flatMap fun e => eventLine P (.dict e))) =
      events.mapM fun e => loads P (sortedJson P .spaced (.dict e)) := by
  obtain ⟨hsplit, hstrip⟩ := splitLines_eventLines h
  have hstripped : (events.map fun e => sortedJson P .spaced (.dict e)).map strip =
      events.map fun e => sortedJson P .spaced (.dict e) := by
    rw [List.map_map]
    exact List.map_congr_left fun e he => (hstrip e he).2
  have hfilled : (events.map fun e => sortedJson P .spaced (.dict e)).filter (· ≠ []) =
      events.map fun e => sortedJson P .spaced (.dict e) := by
    refine List.filter_eq_self.mpr fun l hl => ?_
    obtain ⟨e, he, rfl⟩ := List.mem_map.mp hl
    exact decide_eq_true (hstrip e he).1
  unfold exportLedger
  dsimp only
  rw [readLines_of_decode P (decode_encode (encode_eventLines h)), hsplit, if_pos rfl,
    hstripped, hfilled, List.mapM_map]
  rfl

theorem exportLedger_getD (ledger : Option Bytes) :
    exportLedger P (some (ledger.getD [])) = exportLedger P ledger := by
  cases ledger <;> rfl

theorem exists_exportLedger_appendLedger (eventType mutationId : Str) (extra : Members P.Float)
    (result : QueueEntry) (h : Written P w) (hextra : (Value.dict extra).Plain) :
    ∃ old event, exportLedger P w.ledger = some old ∧
      loads P (sortedJson P .spaced
        (buildEvent P w.queue (w.epochCounter + 1) eventType mutationId extra)) = some event ∧
      exportLedger P (appendLedger P w none eventType mutationId extra result).1.ledger =
        some (old ++ [event]) := by
  obtain ⟨events, hplain, hledger⟩ := h
  obtain ⟨event, hbuilt, hevent⟩ := exists_buildEvent w.queue (w.epochCounter + 1) eventType
    mutationId hextra
  obtain ⟨v, hv⟩ := exists_loads_sortedJson hevent
  have hsome : (exportLedger P w.ledger).isSome = true := by
    rw [← exportLedger_getD, hledger, exportLedger_eventLines hplain, isSome_mapM,
      List.all_eq_true]
    intro e he
    exact Option.isSome_iff_exists.mpr (exists_loads_sortedJson (hplain e he))
  obtain ⟨old, hold⟩ := Option.isSome_iff_exists.mp hsome
  refine ⟨old, v, hold, hbuilt ▸ hv, ?_⟩
  have hplain' : ∀ e ∈ events ++ [event], (Value.dict e).Plain := by
    intro e he
    rcases List.mem_append.mp he with he | he
    · exact hplain e he
    · exact List.mem_singleton.mp he ▸ hevent
  have hledger' : (appendLedger P w none eventType mutationId extra result).1.ledger =
      some ((events ++ [event]).flatMap fun e => eventLine P (.dict e)) := by
    rw [List.flatMap_append, ← hledger, List.flatMap_singleton, ← hbuilt]
    rfl
  rw [← exportLedger_getD, hledger, exportLedger_eventLines hplain] at hold
  rw [hledger', exportLedger_eventLines hplain', List.mapM_append, hold, List.mapM_cons, hv]
  rfl

/-! ### Detection -/

/-- A call was not stopped by the check of the ledger. -/
def Proceeds (result : Except CMQError QueueEntry) : Prop :=
  ∀ message, result ≠ .error (.chainBroken message)

theorem proceeds_dequeue_iff (w : World) (fault : Option Str) :
    Proceeds (dequeue P hmacSecret w fault).2 ↔ verifyChain P w.ledger = true := by
  unfold dequeue
  by_cases hchain : verifyChain P w.ledger = true
  · rw [if_pos hchain]
    refine iff_of_true (fun message h => ?_) hchain
    rcases hpeek : w.queue.peek with _ | ⟨e, place⟩
    · rw [hpeek] at h
      cases h
    · rw [hpeek] at h
      dsimp only at h
      unfold appendLedger at h
      cases fault <;> cases h
  · rw [if_neg hchain]
    exact iff_of_false (fun h => h _ rfl) hchain

variable (P) in
/-- `verify_chain` reports valid and `dequeue` proceeds on a ledger file exactly when it holds the
events that are in the ledger. -/
def Detects (hmacSecret : Bytes) (w : World) (file : Option Bytes) : Prop :=
  (verifyChain P file = true ∧
      ∀ fault, Proceeds (dequeue P hmacSecret { w with ledger := file } fault).2) ↔
    exportLedger P file = exportLedger P w.ledger

/-- After every run from a new queue, and for every ledger file in place of the one it has written
of which all lines are JSON: whether it passes tells that it holds the events of the run exactly
when it holds them. -/
theorem detects_iff_unchanged (hmacSecret : Bytes) (epochCounter : Int) (calls : List Call)
    {file : Option Bytes} {events : List P.Obj} (h : exportLedger P file = some events) :
    Detects P hmacSecret (run (step P hmacSecret) (initial P hmacSecret epochCounter none) calls)
        file ↔
      exportLedger P file = exportLedger P
        (run (step P hmacSecret) (initial P hmacSecret epochCounter none) calls).ledger := by
  have hpasses : verifyChain P file = true := by
    rw [verifyChain_eq, h]
    rfl
  have hproceeds : verifyChain P file = true ∧ ∀ fault, Proceeds (dequeue P hmacSecret
      { run (step P hmacSecret) (initial P hmacSecret epochCounter none) calls with
        ledger := file } fault).2 :=
    ⟨hpasses, fun fault => (proceeds_dequeue_iff _ fault).mpr hpasses⟩
  exact ⟨fun hdetects => hdetects.mp hproceeds, fun heq => iff_of_true hproceeds heq⟩

/-! ### An event removed -/

def alone : List Call := [.enqueue (request (str "1")) none]

theorem exportLedger_alone : ∃ event,
    exportLedger reference (run (step reference []) (initial reference [] 0 none) alone).ledger =
      some [event] := by
  let entry := newEntry reference [] (request (str "1")) 1
  let q := { newQueue reference [] with entries := [entry] }.updateStateHmac reference []
  obtain ⟨old, event, hold, -, h⟩ := exists_exportLedger_appendLedger (P := reference)
    (w := ⟨q, 1, none⟩) (str "ENQUEUE") (str "1")
    [(.str (str "priority_score"), .int entry.priorityScore),
      (.str (str "blast_tier"), .int 1), (.str (str "human0_override"), .bool false),
      (.str (str "author"), .str (str "DreamAgent"))] entry ⟨[], nofun, rfl⟩
    ⟨rfl, trivial, rfl, trivial, rfl, trivial, rfl, trivial, trivial⟩
  obtain rfl := Option.some.inj hold
  exact ⟨event, h⟩

theorem detects_iff_unchanged_removed :
    Detects reference [] (run (step reference []) (initial reference [] 0 none) alone) (some []) ↔
      exportLedger reference (some []) = exportLedger reference
        (run (step reference []) (initial reference [] 0 none) alone).ledger :=
  detects_iff_unchanged [] 0 alone rfl

/-- In general a ledger passes from which an event was removed. -/
theorem not_detects_removed : ¬ ∀ (hmacSecret : Bytes) (epochCounter : Int) (calls : List Call)
    (file : Option Bytes) (events : List reference.Obj),
    exportLedger reference file = some events →
      Detects reference hmacSecret
        (run (step reference hmacSecret) (initial reference hmacSecret epochCounter none) calls)
        file := by
  intro h
  have hpasses : verifyChain reference (some []) = true := rfl
  have heq := (h [] 0 alone (some []) [] rfl).mp
    ⟨hpasses, fun fault => (proceeds_dequeue_iff _ fault).mpr hpasses⟩
  obtain ⟨event, hevent⟩ := exportLedger_alone
  have hempty : exportLedger reference (some []) = some [] := rfl
  rw [hempty, hevent] at heq
  cases heq

end Adaad.MutationQueue
