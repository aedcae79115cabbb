import Adaad.Program
import Adaad.Run
import Mathlib.Data.List.Forall2

/-!
# Workers that share a state

Each worker makes calls, one after the other.  The program of a call takes its steps when the worker
is scheduled, and between two of them the others may take theirs.

What `Program.Tracks` says of each call is put together here: as long as every step finds what it
expects, a relation `J` between the state, what is known of the calls under way and what is known of
those that are over holds in every state of a run (`always_tracked`).  Workers that take turns find
what they expect (`meets_turns`).
-/

namespace Workers

variable {ι C E S G α : Type}

structure System (ι C E S α : Type) where
  state : S
  /-- The call that a worker is in, and what is left of its program. -/
  running : ι → Option (C × Program E S α)
  /-- The calls that are over, with what they returned or raised. -/
  returned : List (C × Except E α)

def System.start (s : S) : System ι C E S α where
  state := s
  running _ := none
  returned := []

@[simp] theorem System.start_state (s : S) : (start s : System ι C E S α).state = s := rfl

@[simp] theorem System.start_running (s : S) (i : ι) :
    (start s : System ι C E S α).running i = none := rfl

@[simp] theorem System.start_returned (s : S) : (start s : System ι C E S α).returned = [] := rfl

inductive Action (ι C : Type) where
  | call (i : ι) (c : C)
  /-- The worker takes a step of its call, or returns from it. -/
  | advance (i : ι)

variable [DecidableEq ι] (program : C → Program E S α)

/-- The worker goes on with `now`, and what it has done before leaves the state `s` and the
results. -/
def System.put (σ : System ι C E S α) (i : ι) (now : Option (C × Program E S α)) (s : S)
    (results : List (C × Except E α)) : System ι C E S α where
  state := s
  running := Function.update σ.running i now
  returned := σ.returned ++ results

def step (σ : System ι C E S α) : Action ι C → System ι C E S α
  | .call i c =>
    match σ.running i with
    | none => σ.put i (some (c, program c)) σ.state []
    | some _ => σ
  | .advance i =>
    match σ.running i with
    | none => σ
    | some (c, .done x) => σ.put i none σ.state [(c, x)]
    | some (c, .step _ next k) => σ.put i (some (c, k σ.state)) (next σ.state) []

/-- A step of a program finds what it expects. -/
def Finds (σ : System ι C E S α) : Action ι C → Prop
  | .call _ _ => True
  | .advance i =>
    match σ.running i with
    | some (_, .step expects _ _) => expects σ.state
    | _ => True

section equations

variable {program} {σ : System ι C E S α} {i j : ι} {c d : C} {s t : S}
  {now later : Option (C × Program E S α)} {results more : List (C × Except E α)}

@[simp] theorem put_state : (σ.put i now s results).state = s := rfl

@[simp] theorem put_returned : (σ.put i now s results).returned = σ.returned ++ results := rfl

@[simp] theorem put_running_self : (σ.put i now s results).running i = now :=
  Function.update_self ..

theorem put_running_of_ne (h : j ≠ i) : (σ.put i now s results).running j = σ.running j :=
  Function.update_of_ne h ..

@[simp] theorem put_put :
    (σ.put i now s results).put i later t more = σ.put i later t (results ++ more) := by
  simp only [System.put, Function.update_idem, List.append_assoc]

theorem put_eq_self (h : σ.running i = now) : σ.put i now σ.state [] = σ := by
  rw [System.put, ← h, Function.update_eq_self, List.append_nil]

theorem step_call_of_idle (h : σ.running i = none) :
    step program σ (.call i c) = σ.put i (some (c, program c)) σ.state [] := by
  simp only [step, h]

theorem step_call_of_busy {p : Program E S α} (h : σ.running i = some (d, p)) :
    step program σ (.call i c) = σ := by
  simp only [step, h]

theorem step_advance_of_idle (h : σ.running i = none) : step program σ (.advance i) = σ := by
  simp only [step, h]

theorem step_advance_done {x : Except E α} (h : σ.running i = some (c, .done x)) :
    step program σ (.advance i) = σ.put i none σ.state [(c, x)] := by
  simp only [step, h]

theorem step_advance_step {expects : S → Prop} {next : S → S} {k : S → Program E S α}
    (h : σ.running i = some (c, .step expects next k)) :
    step program σ (.advance i) = σ.put i (some (c, k σ.state)) (next σ.state) [] := by
  simp only [step, h]

omit [DecidableEq ι] in
theorem finds_step {expects : S → Prop} {next : S → S} {k : S → Program E S α}
    (h : σ.running i = some (c, .step expects next k)) :
    Finds σ (.advance i) ↔ expects σ.state := by
  simp only [Finds, h]

omit [DecidableEq ι] in
theorem finds_done {x : Except E α} (h : σ.running i = some (c, .done x)) :
    Finds σ (.advance i) := by
  simp only [Finds, h]

end equations

/-! ### What is known of the calls -/

section tracked

variable (I : S → Prop) (R : G → S → S → G → Prop) (Q : C → G → Except E α → Prop) (g₀ : G)
  (J : S → (ι → G) → List G → Prop)

/-- What is `known` of the calls under way and of the calls that are over. -/
structure Tracked (σ : System ι C E S α) (known : ι → G) (past : List G) : Prop where
  state : I σ.state
  running : ∀ i c p, σ.running i = some (c, p) → Program.Tracks I R (Q c) (known i) p
  idle : ∀ i, σ.running i = none → known i = g₀
  returned : List.Forall₂ (fun r g => Q r.1 g r.2) σ.returned past
  joint : J σ.state known past

variable {program I R Q g₀ J}
  (hprogram : ∀ c, Program.Tracks I R (Q c) g₀ (program c))
  (hstep : ∀ s s' known past i g', I s → J s known past → R (known i) s s' g' →
    J s' (Function.update known i g') past)
  (hreturn : ∀ s known past i, J s known past →
    J s (Function.update known i g₀) (past ++ [known i]))
  {σ : System ι C E S α} {known : ι → G} {past : List G}

theorem Tracked.put (h : Tracked I R Q g₀ J σ known past) {i : ι} {g : G} {s : S}
    {now : Option (C × Program E S α)} {results : List (C × Except E α)} {more : List G}
    (hs : I s) (hrunning : ∀ c p, now = some (c, p) → Program.Tracks I R (Q c) g p)
    (hidle : now = none → g = g₀)
    (hresults : List.Forall₂ (fun r g => Q r.1 g r.2) results more)
    (hjoint : J s (Function.update known i g) (past ++ more)) :
    Tracked I R Q g₀ J (σ.put i now s results) (Function.update known i g) (past ++ more) where
  state := hs
  running j c p hj := by
    by_cases hij : j = i
    · rw [hij, put_running_self] at hj
      rw [hij, Function.update_self]
      exact hrunning c p hj
    · rw [put_running_of_ne hij] at hj
      rw [Function.update_of_ne hij]
      exact h.running j c p hj
  idle j hj := by
    by_cases hij : j = i
    · rw [hij, put_running_self] at hj
      rw [hij, Function.update_self]
      exact hidle hj
    · rw [put_running_of_ne hij] at hj
      rw [Function.update_of_ne hij]
      exact h.idle j hj
  returned := List.rel_append h.returned hresults
  joint := hjoint

include hprogram in
theorem Tracked.call (h : Tracked I R Q g₀ J σ known past) (i : ι) (c : C) :
    Tracked I R Q g₀ J (step program σ (.call i c)) known past := by
  cases hi : σ.running i with
  | some cp =>
    rw [step_call_of_busy hi]
    exact h
  | none =>
    have hknown : Function.update known i g₀ = known := by
      rw [← h.idle i hi, Function.update_eq_self]
    rw [step_call_of_idle hi, ← hknown, ← List.append_nil past]
    refine h.put h.state (fun d p hd => ?_) (fun _ => rfl) .nil ?_
    · obtain ⟨rfl, rfl⟩ := Prod.mk.inj (Option.some.inj hd)
      exact hprogram c
    · rw [hknown, List.append_nil]
      exact h.joint

include hstep hreturn in
theorem Tracked.advance (h : Tracked I R Q g₀ J σ known past) {i : ι}
    (hfinds : Finds σ (.advance i)) :
    ∃ known' past', Tracked I R Q g₀ J (step program σ (.advance i)) known' past' := by
  cases hi : σ.running i with
  | none =>
    rw [step_advance_of_idle hi]
    exact ⟨known, past, h⟩
  | some cp =>
    obtain ⟨c, p⟩ := cp
    have hp := h.running i c p hi
    cases p with
    | done x =>
      rw [step_advance_done hi]
      refine ⟨Function.update known i g₀, past ++ [known i], ?_⟩
      exact h.put h.state (fun d p hd => by cases hd) (fun _ => rfl) (.cons hp .nil)
        (hreturn _ _ _ _ h.joint)
    | step expects next k =>
      obtain ⟨hI, g', hR, hrest⟩ := hp σ.state h.state ((finds_step hi).mp hfinds)
      rw [step_advance_step hi]
      refine ⟨Function.update known i g', past ++ [], ?_⟩
      refine h.put hI (fun d p hd => ?_) (fun hd => by cases hd) .nil ?_
      · obtain ⟨rfl, rfl⟩ := Prod.mk.inj (Option.some.inj hd)
        exact hrest
      · rw [List.append_nil]
        exact hstep _ _ _ _ _ _ h.state h.joint hR

include hprogram hstep hreturn in
theorem always_tracked {as : List (Action ι C)} (h : Tracked I R Q g₀ J σ known past)
    (hfinds : Run.Meets (step program) Finds σ as) :
    Run.Always (step program) (fun σ => ∃ known past, Tracked I R Q g₀ J σ known past) σ as := by
  refine Run.always_of_step ?_ ⟨known, past, h⟩ hfinds
  rintro σ' (⟨i, c⟩ | ⟨i⟩) ⟨known', past', h'⟩ hok
  · exact ⟨known', past', h'.call hprogram i c⟩
  · exact h'.advance hstep hreturn hok

end tracked

/-! ### Steps that only read -/

/-- The program takes so many steps that leave the state as it is, and the rest is left of it. -/
inductive Reads (s : S) : ℕ → Program E S α → Program E S α → Prop where
  | none {p : Program E S α} : Reads s 0 p p
  | step {n : ℕ} {expects : S → Prop} {next : S → S} {k : S → Program E S α}
      {rest : Program E S α} (hnext : next s = s) (hrest : Reads s n (k s) rest) :
      Reads s (n + 1) (.step expects next k) rest

theorem run_reads {program : C → Program E S α} {σ : System ι C E S α} {i : ι} {c : C} {n : ℕ}
    {p rest : Program E S α} (h : Reads σ.state n p rest) (hi : σ.running i = some (c, p)) :
    Run.run (step program) σ (List.replicate n (.advance i)) =
      σ.put i (some (c, rest)) σ.state [] := by
  induction n generalizing σ p with
  | zero =>
    cases h
    exact (put_eq_self hi).symm
  | succ n ih =>
    cases h with
    | @step n expects next k rest hnext hrest =>
      show Run.run (step program) (step program σ (.advance i)) (List.replicate n (.advance i)) = _
      have hrun := ih (σ := σ.put i (some (c, k σ.state)) σ.state []) hrest put_running_self
      rw [step_advance_step hi, hnext, hrun, put_put]
      rfl

/-! ### Turns -/

/-- The worker takes all the steps of its call and returns from it. -/
def finish (i : ι) (p : Program E S α) (s : S) : List (Action ι C) :=
  List.replicate ((Program.trace p s).length + 1) (.advance i)

/-- Each call is over before the next one is made. -/
def turns : S → List (ι × C) → List (Action ι C)
  | _, [] => []
  | s, (i, c) :: calls =>
    .call i c :: finish i (program c) s ++ turns (Program.run (program c) s).2 calls

variable {program} {σ : System ι C E S α} {i : ι} {c : C} {p : Program E S α}

theorem run_finish (h : σ.running i = some (c, p)) :
    Run.run (step program) σ (finish i p σ.state) =
      σ.put i none (Program.run p σ.state).2 [(c, (Program.run p σ.state).1)] := by
  induction p generalizing σ with
  | done x =>
    show step program σ (.advance i) = _
    exact step_advance_done h
  | step expects next k ih =>
    show Run.run (step program) (step program σ (.advance i))
      (finish i (k σ.state) (next σ.state)) = _
    rw [step_advance_step h]
    have hrest := ih σ.state (σ := σ.put i (some (c, k σ.state)) (next σ.state) []) put_running_self
    rw [put_put] at hrest
    exact hrest

theorem meets_finish (h : σ.running i = some (c, p)) (hp : Program.Steady p σ.state) :
    Run.Meets (step program) Finds σ (finish i p σ.state) := by
  induction p generalizing σ with
  | done x => exact ⟨finds_done h, trivial⟩
  | step expects next k ih =>
    refine ⟨(finds_step h).mpr hp.1, ?_⟩
    show Run.Meets (step program) Finds (step program σ (.advance i))
      (finish i (k σ.state) (next σ.state))
    rw [step_advance_step h]
    exact ih σ.state (σ := σ.put i (some (c, k σ.state)) (next σ.state) []) put_running_self hp.2

theorem run_call_finish (hi : σ.running i = none) :
    Run.run (step program) σ (.call i c :: finish i (program c) σ.state) =
      σ.put i none (Program.run (program c) σ.state).2
        [(c, (Program.run (program c) σ.state).1)] := by
  have hrun : Run.run (step program) (σ.put i (some (c, program c)) σ.state [])
      (finish i (program c) σ.state) = _ :=
    run_finish (σ := σ.put i (some (c, program c)) σ.state []) put_running_self
  rw [put_put] at hrun
  rw [Run.run_cons, step_call_of_idle hi]
  exact hrun

theorem meets_turns {I : S → Prop} (hI : ∀ c s, I s → I (Program.run (program c) s).2)
    (hsteady : ∀ c s, I s → Program.Steady (program c) s) (hσ : ∀ i, σ.running i = none)
    (hs : I σ.state) (calls : List (ι × C)) :
    Run.Meets (step program) Finds σ (turns program σ.state calls) := by
  induction calls generalizing σ with
  | nil => trivial
  | cons ic calls ih =>
    obtain ⟨i, c⟩ := ic
    unfold turns
    rw [Run.meets_append, run_call_finish (hσ i)]
    refine ⟨⟨trivial, ?_⟩, ?_⟩
    · rw [step_call_of_idle (hσ i)]
      exact meets_finish (σ := σ.put i (some (c, program c)) σ.state []) put_running_self
        (hsteady c σ.state hs)
    · refine ih (σ := σ.put i none _ _) (fun j => ?_) (hI c σ.state hs)
      by_cases hij : j = i
      · rw [hij, put_running_self]
      · rw [put_running_of_ne hij, hσ j]

end Workers
