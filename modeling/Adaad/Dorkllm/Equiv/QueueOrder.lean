import Adaad.Dorkllm.Equiv.MutationQueue

/-!
# The order of the queue

`dequeue` takes the entry of the greatest priority, and of these the one enqueued first
(`goesBefore_of_peek`, `Dated`).  An override of HUMAN-0 has a priority that is a large number like
any other: it goes first exactly as long as no other entry reaches it (`takesNext_iff`), and the
weights of the governance objectives, which may be given more than once, can add up to it.
-/

namespace Adaad.MutationQueue

open Py Run

variable {P : Platform} {hmacSecret : Bytes} {w : World} {es : List QueueEntry}
  {e : QueueEntry}

/-! ### The first of the queued entries -/

theorem goesBefore_total (a b : QueueEntry) : goesBefore a b = true ∨ goesBefore b a = true := by
  simp only [goesBefore, Bool.or_eq_true, Bool.and_eq_true, decide_eq_true_eq, beq_iff_eq]
  omega

theorem goesBefore_trans {a b c : QueueEntry} (hab : goesBefore a b = true)
    (hbc : goesBefore b c = true) : goesBefore a c = true := by
  simp only [goesBefore, Bool.or_eq_true, Bool.and_eq_true, decide_eq_true_eq,
    beq_iff_eq] at hab hbc ⊢
  omega

theorem goesBefore_of_peek {q : Queue} {place : Nat} (h : q.peek = some (e, place)) {i : Nat}
    {f : QueueEntry} (hf : q.entries[i]? = some f) (hqueued : f.status = .queued) :
    goesBefore e f = true := by
  have : Std.Total fun a b : QueueEntry × Nat => goesBefore a.1 b.1 = true :=
    ⟨fun a b => goesBefore_total a.1 b.1⟩
  have : IsTrans (QueueEntry × Nat) fun a b => goesBefore a.1 b.1 = true :=
    ⟨fun _ _ _ => goesBefore_trans⟩
  have hsorted := List.pairwise_insertionSort (fun a b : QueueEntry × Nat =>
    goesBefore a.1 b.1 = true) (q.entries.zipIdx.filter fun e => e.1.status = .queued)
  have hmem : (f, i) ∈ (q.entries.zipIdx.filter fun e => e.1.status = .queued).insertionSort
      fun a b => goesBefore a.1 b.1 = true := by
    rw [List.mem_insertionSort, List.mem_filter, decide_eq_true_eq]
    exact ⟨(List.mk_mem_zipIdx_iff_getElem? ..).mpr hf, hqueued⟩
  obtain ⟨rest, hrest⟩ := List.head?_eq_some_iff.mp h
  rw [hrest] at hsorted hmem
  rcases List.mem_cons.mp hmem with heq | hmem
  · rw [(Prod.mk.inj heq).1]
    exact (goesBefore_total e e).elim id id
  · exact (List.pairwise_cons.mp hsorted).1 _ hmem

theorem peek_ne_none {q : Queue} (he : e ∈ q.entries) (hqueued : e.status = .queued) :
    q.peek ≠ none := by
  intro h
  unfold Queue.peek at h
  rw [List.head?_eq_none_iff] at h
  obtain ⟨i, hi⟩ := List.mem_iff_getElem?.mp he
  have hmem : (e, i) ∈ (q.entries.zipIdx.filter fun e => e.1.status = .queued).insertionSort
      fun a b => goesBefore a.1 b.1 = true := by
    rw [List.mem_insertionSort, List.mem_filter, decide_eq_true_eq]
    exact ⟨(List.mk_mem_zipIdx_iff_getElem? ..).mpr hi, hqueued⟩
  rw [h] at hmem
  cases hmem

theorem dequeue_eq_ok_iff {fault : Option Str} :
    (dequeue P hmacSecret w fault).2 = .ok e ↔
      verifyChain P w.ledger = true ∧ fault = none ∧
        ∃ s place, w.queue.peek = some (s, place) ∧ e = { s with status := .inFlight } := by
  unfold dequeue
  by_cases hchain : verifyChain P w.ledger = true
  · rw [if_pos hchain, and_iff_right hchain]
    rcases hpeek : w.queue.peek with _ | ⟨s, place⟩
    · exact iff_of_false (fun h => by cases h) fun h => by
        obtain ⟨-, s, place, h, -⟩ := h
        cases h
    · dsimp only
      unfold appendLedger
      cases fault with
      | some message => exact iff_of_false (fun h => by cases h) fun h => by cases h.1
      | none =>
        constructor
        · intro h
          exact ⟨rfl, s, place, rfl, (Except.ok.inj h).symm⟩
        · rintro ⟨-, s', place', hs, rfl⟩
          obtain ⟨rfl, -⟩ := Prod.mk.inj (Option.some.inj hs)
          rfl
  · rw [if_neg hchain]
    exact iff_of_false (fun h => by cases h) fun h => hchain h.1

/-! ### Scores -/

/-- `(3 - blast_tier) * 100` and the weights of the objectives. -/
def score (e : QueueEntry) : Int :=
  (3 - e.blastTier) * 100 +
    (e.governanceObjectives.map fun o => (objectiveWeights.lookup o).getD 0).sum

/-- The priority of an entry is that of an override, or its score. -/
def Scored (e : QueueEntry) : Prop :=
  e.priorityScore = if e.human0Override = true then human0Priority else score e

theorem scored_newEntry {q : Queue} {r : EnqueueRequest} (h : checkRequest q r = .ok ())
    (now : Int) : Scored (newEntry P hmacSecret r now) := by
  have hauthor : ¬(r.human0Override = true ∧ r.author ≠ governor) := by
    intro hbypass
    unfold checkRequest at h
    rw [if_pos hbypass] at h
    split_ifs at h
  unfold Scored newEntry computePriority
  dsimp only
  by_cases hover : r.human0Override = true
  · have hgovernor : r.author = governor := not_not.mp fun hne => hauthor ⟨hover, hne⟩
    rw [if_pos ⟨hover, hgovernor⟩, if_pos hover]
  · rw [if_neg fun hboth => hover hboth.1, if_neg hover]
    rfl

/-! ### The order of enqueuing -/

/-- The entries have scores, and timestamps in the order they were enqueued in, none after now. -/
structure Dated (es : List QueueEntry) (now : Int) : Prop where
  scored : ∀ e ∈ es, Scored e
  ordered : (es.map QueueEntry.enqueueTimestamp).Pairwise (· < ·)
  past : ∀ e ∈ es, e.enqueueTimestamp ≤ now

theorem Dated.mono {now later : Int} (h : Dated es now) (hle : now ≤ later) : Dated es later :=
  ⟨h.scored, h.ordered, fun e he => (h.past e he).trans hle⟩

theorem Dated.concat {now : Int} (h : Dated es now) (hscored : Scored e)
    (htime : e.enqueueTimestamp = now + 1) : Dated (es ++ [e]) (now + 1) := by
  refine ⟨?_, ?_, ?_⟩
  · intro f hf
    rcases List.mem_append.mp hf with hf | hf
    · exact h.scored f hf
    · rw [List.mem_singleton.mp hf]
      exact hscored
  · rw [List.map_append, List.map_singleton, List.pairwise_append]
    refine ⟨h.ordered, List.pairwise_singleton _ _, ?_⟩
    intro t ht t' ht'
    obtain ⟨f, hf, rfl⟩ := List.mem_map.mp ht
    rw [List.mem_singleton.mp ht', htime]
    exact Int.lt_add_one_of_le (h.past f hf)
  · intro f hf
    rcases List.mem_append.mp hf with hf | hf
    · exact (h.past f hf).trans (Int.le_add_one le_rfl)
    · rw [List.mem_singleton.mp hf, htime]

theorem Dated.setStatus {now : Int} (h : Dated es now) (place : Nat) (status : EntryStatus) :
    Dated (es.modify place fun e => { e with status := status }) now := by
  -- Nothing that `Dated` looks at depends on the status.
  have hmem : ∀ f ∈ es.modify place fun e => { e with status := status },
      ∃ g ∈ es, f = g ∨ f = { g with status := status } := by
    intro f hf
    obtain ⟨i, hi⟩ := List.mem_iff_getElem?.mp hf
    rw [getElem?_setStatus] at hi
    obtain ⟨g, hg, rfl⟩ := Option.map_eq_some_iff.mp hi
    refine ⟨g, List.mem_of_getElem? hg, ?_⟩
    split_ifs
    · exact .inr rfl
    · exact .inl rfl
  refine ⟨?_, ?_, ?_⟩
  · intro f hf
    obtain ⟨g, hg, rfl | rfl⟩ := hmem f hf
    · exact h.scored f hg
    · exact h.scored g hg
  · have htimes : (es.modify place fun e => { e with status := status }).map
        QueueEntry.enqueueTimestamp = es.map QueueEntry.enqueueTimestamp := by
      refine List.ext_getElem? fun i => ?_
      rw [List.getElem?_map, List.getElem?_map, getElem?_setStatus, Option.map_map]
      congr 1
      funext f
      rw [Function.comp_apply]
      split_ifs <;> rfl
    rw [htimes]
    exact h.ordered
  · intro f hf
    obtain ⟨g, hg, rfl | rfl⟩ := hmem f hf
    · exact h.past f hg
    · exact h.past g hg

theorem Dated.place_le {now : Int} (h : Dated es now) {i j : Nat} {f g : QueueEntry}
    (hf : es[i]? = some f) (hg : es[j]? = some g)
    (hle : f.enqueueTimestamp ≤ g.enqueueTimestamp) : i ≤ j := by
  by_contra hlt
  obtain ⟨hi, rfl⟩ := List.getElem?_eq_some_iff.mp hf
  obtain ⟨hj, rfl⟩ := List.getElem?_eq_some_iff.mp hg
  have hordered := List.pairwise_iff_getElem.mp h.ordered j i (by rwa [List.length_map])
    (by rwa [List.length_map]) (not_le.mp hlt)
  rw [List.getElem_map, List.getElem_map] at hordered
  exact absurd hle (not_le.mpr hordered)

theorem epochCounter_appendLedger (w : World) (fault : Option Str) (eventType mutationId : Str)
    (extra : Members P.Float) (result : QueueEntry) :
    (appendLedger P w fault eventType mutationId extra result).1.epochCounter =
      w.epochCounter + 1 := by
  unfold appendLedger
  cases fault <;> rfl

def Forward (w : World) : Call → Prop
  | .reset seed => w.epochCounter ≤ seed
  | _ => True

theorem dated_step (hmacSecret : Bytes) (call : Call) (h : Dated w.queue.entries w.epochCounter)
    (hforward : Forward w call) :
    Dated (step P hmacSecret w call).queue.entries (step P hmacSecret w call).epochCounter := by
  cases call with
  | enqueue r fault =>
    show Dated (enqueue P hmacSecret w fault r).1.queue.entries
      (enqueue P hmacSecret w fault r).1.epochCounter
    unfold enqueue
    split
    · exact h
    · next hcheck =>
      rw [queue_appendLedger, epochCounter_appendLedger]
      exact (h.concat (scored_newEntry hcheck _) rfl).mono (Int.le_add_one le_rfl)
  | dequeue fault =>
    show Dated (dequeue P hmacSecret w fault).1.queue.entries
      (dequeue P hmacSecret w fault).1.epochCounter
    unfold dequeue
    split_ifs
    · split
      · exact h
      · rw [queue_appendLedger, epochCounter_appendLedger]
        exact (h.setStatus _ _).mono (Int.le_add_one le_rfl)
    · exact h
  | complete mutationId outcome fault =>
    show Dated (complete P hmacSecret w fault mutationId outcome).1.queue.entries
      (complete P hmacSecret w fault mutationId outcome).1.epochCounter
    unfold complete
    split
    · exact h
    · split_ifs
      · rw [queue_appendLedger, epochCounter_appendLedger]
        exact (h.setStatus _ _).mono (Int.le_add_one le_rfl)
      · exact h
  | reset seed => exact h.mono hforward

variable (P hmacSecret) in
theorem dated_initial (epochCounter : Int) (ledger : Option Bytes) :
    Dated (initial P hmacSecret epochCounter ledger).queue.entries
      (initial P hmacSecret epochCounter ledger).epochCounter :=
  ⟨fun _ he => absurd he List.not_mem_nil, List.Pairwise.nil,
    fun _ he => absurd he List.not_mem_nil⟩

/-! ### What is taken out -/

def OverrideWaits (es : List QueueEntry) : Prop :=
  ∃ f ∈ es, f.status = .queued ∧ f.human0Override = true

/-- The entry at the place is the one to be taken out next. -/
structure IsNext (es : List QueueEntry) (s : QueueEntry) (place : Nat) : Prop where
  here : es[place]? = some s
  queued : s.status = .queued
  override : OverrideWaits es → s.human0Override = true
  greatest : ¬OverrideWaits es → ∀ f ∈ es, f.status = .queued → score f ≤ score s
  first : ¬OverrideWaits es → ∀ i f, es[i]? = some f → f.status = .queued →
    score f = score s → place ≤ i

variable (P hmacSecret) in
/-- The entry that a call of `dequeue` returns is the next one. -/
def TakesNext (w : World) : Call → Prop
  | .dequeue fault => ∀ e, (dequeue P hmacSecret w fault).2 = .ok e →
      ∃ s place, IsNext w.queue.entries s place ∧ e = { s with status := .inFlight }
  | _ => True

/-- One of the overrides that wait has a greater priority than every other entry that waits, or the
same and was enqueued before it. -/
def OverrideOutranks (es : List QueueEntry) : Prop :=
  ∃ (i : Nat) (f : QueueEntry), es[i]? = some f ∧ f.status = .queued ∧ f.human0Override = true ∧
    ∀ (j : Nat) (g : QueueEntry), es[j]? = some g → g.status = .queued →
      g.human0Override = false →
      score g < human0Priority ∨ score g = human0Priority ∧ i < j

variable (P) in
/-- When a call of `dequeue` takes out an entry while overrides wait, one of them outranks the
others. -/
def Outranked (w : World) : Call → Prop
  | .dequeue fault => fault = none → verifyChain P w.ledger = true →
      OverrideWaits w.queue.entries → OverrideOutranks w.queue.entries
  | _ => True

theorem isNext_peek_iff {q : Queue} {s : QueueEntry} {place : Nat} {now : Int}
    (h : Dated q.entries now) (hpeek : q.peek = some (s, place)) :
    IsNext q.entries s place ↔ (OverrideWaits q.entries → OverrideOutranks q.entries) := by
  obtain ⟨hs, hqueued⟩ := peek_eq_some hpeek
  have hscored := h.scored s (List.mem_of_getElem? hs)
  unfold Scored at hscored
  -- What is known of an entry that `peek` did not return.
  have hbefore : ∀ i f, q.entries[i]? = some f → f.status = .queued →
      f.priorityScore < s.priorityScore ∨ f.priorityScore = s.priorityScore ∧ place ≤ i := by
    intro i f hf hfqueued
    have hgoes := goesBefore_of_peek hpeek hf hfqueued
    simp only [goesBefore, Bool.or_eq_true, Bool.and_eq_true, decide_eq_true_eq,
      beq_iff_eq] at hgoes
    rcases hgoes with hlt | ⟨heq, htime⟩
    · exact .inl hlt
    · exact .inr ⟨heq.symm, h.place_le hs hf htime⟩
  constructor
  · intro hnext hwaits
    have hover := hnext.override hwaits
    rw [if_pos hover] at hscored
    refine ⟨place, s, hs, hqueued, hover, fun j g hg hgqueued hgover => ?_⟩
    have hgscored := h.scored g (List.mem_of_getElem? hg)
    unfold Scored at hgscored
    rw [hgover, if_neg Bool.false_ne_true] at hgscored
    have hgbefore := hbefore j g hg hgqueued
    rw [hscored, hgscored] at hgbefore
    refine hgbefore.imp id fun hsame => ⟨hsame.1, lt_of_le_of_ne hsame.2 ?_⟩
    rintro rfl
    obtain rfl := Option.some.inj (hs.symm.trans hg)
    rw [hover] at hgover
    cases hgover
  · intro houtranks
    refine ⟨hs, hqueued, fun hwaits => ?_, fun hwaits f hf hfqueued => ?_,
      fun hwaits i f hf hfqueued heq => ?_⟩
    · obtain ⟨i, f, hf, hfqueued, hfover, hall⟩ := houtranks hwaits
      have hfscored := h.scored f (List.mem_of_getElem? hf)
      unfold Scored at hfscored
      rw [if_pos hfover] at hfscored
      have hfbefore := hbefore i f hf hfqueued
      by_contra hover
      rw [if_neg hover] at hscored
      have hall := hall place s hs hqueued (Bool.eq_false_iff.mpr hover)
      omega
    all_goals
      have hplain : ∀ g ∈ q.entries, g.status = .queued → g.priorityScore = score g := by
        intro g hg hgqueued
        have hgscored := h.scored g hg
        unfold Scored at hgscored
        rwa [if_neg fun hgover => hwaits ⟨g, hg, hgqueued, hgover⟩] at hgscored
      have hsplain := hplain s (List.mem_of_getElem? hs) hqueued
    · obtain ⟨i, hi⟩ := List.mem_iff_getElem?.mp hf
      have hfbefore := hbefore i f hi hfqueued
      rw [hplain f hf hfqueued, hsplain] at hfbefore
      omega
    · have hfbefore := hbefore i f hf hfqueued
      rw [hplain f (List.mem_of_getElem? hf) hfqueued, hsplain] at hfbefore
      omega

theorem takesNext_step_iff (call : Call) (h : Dated w.queue.entries w.epochCounter) :
    TakesNext P hmacSecret w call ↔ Outranked P w call := by
  cases call with
  | dequeue fault =>
    unfold TakesNext Outranked
    rcases hpeek : w.queue.peek with _ | ⟨s, place⟩
    · refine iff_of_true (fun e he => ?_) fun _ _ hwaits => ?_
      · obtain ⟨-, -, s, place, hs, -⟩ := dequeue_eq_ok_iff.mp he
        rw [hpeek] at hs
        cases hs
      · obtain ⟨f, hf, hfqueued, -⟩ := hwaits
        exact absurd hpeek (peek_ne_none hf hfqueued)
    · constructor
      · intro hnext hfault hchain
        obtain ⟨s', place', hs', heq⟩ := hnext { s with status := .inFlight }
          (dequeue_eq_ok_iff.mpr ⟨hchain, hfault, s, place, hpeek, rfl⟩)
        obtain ⟨hs, hqueued⟩ := peek_eq_some hpeek
        have htime := congrArg QueueEntry.enqueueTimestamp heq
        dsimp only at htime
        have hplace : place = place' := le_antisymm (h.place_le hs hs'.here htime.le)
          (h.place_le hs'.here hs htime.ge)
        obtain rfl := Option.some.inj (hs.symm.trans (hplace ▸ hs'.here))
        rw [← hplace] at hs'
        exact (isNext_peek_iff h hpeek).mp hs'
      · intro houtranks e he
        obtain ⟨hchain, hfault, s', place', hs', rfl⟩ := dequeue_eq_ok_iff.mp he
        exact ⟨s', place', (isNext_peek_iff h hs').mpr (houtranks hfault hchain), rfl⟩
  | _ => exact Iff.rfl

/-- A mutation that names one objective two hundred times. -/
def weighty : EnqueueRequest :=
  { request (str "1") with governanceObjectives := List.replicate 200 (str "HUMAN0_GATE") }

def override : EnqueueRequest :=
  { request (str "2") with author := governor, human0Override := true }

theorem score_weighty (now : Int) : score (newEntry reference [] weighty now) = 10200 := by
  show (3 - 1) * 100 + ((List.replicate 200 (str "HUMAN0_GATE")).map fun o =>
    (objectiveWeights.lookup o).getD 0).sum = 10200
  have hweight : (objectiveWeights.lookup (str "HUMAN0_GATE")).getD 0 = 50 := by decide
  rw [List.map_replicate, hweight, List.sum_replicate]
  decide

end Adaad.MutationQueue
