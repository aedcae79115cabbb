import Mathlib.Data.List.Chain
import Mathlib.Logic.Basic

/-!
# Programs that take atomic steps

A program on a shared state takes atomic steps, each of which may read the state and change it, and
returns or raises at the end.  What it has read it may use later, when another program has changed
the state in between; so a step also says what it `expects` of the state it is taken in.

The same program can be run alone (`run`) and step by step beside others.

* `Steady p s`: alone from `s`, every step of `p` finds what it expects.
* `Tracks I R Q g p`: a step that finds what it expects keeps `I` and does what `R` says, from
  whichever state it is taken; `g` is what is known of the steps taken so far.

* `Agrees R Q p p'`: alone from states that `R` relates, `p` and `p'` return or raise the same and
  end in states that `R` relates; `Q` holds of what they return.

There is one rule for each way to build a program.
-/

/-- A program on a state of type `S` that raises exceptions of type `E`. -/
inductive Program (E S α : Type) where
  | done (x : Except E α)
  | step (expects : S → Prop) (next : S → S) (k : S → Program E S α)

namespace Program

variable {E S G α β : Type}

/-- `p`, and then `f` of what it returns. -/
def bind (p : Program E S α) (f : α → Program E S β) : Program E S β :=
  match p with
  | done (.ok a) => f a
  | done (.error e) => done (.error e)
  | step expects next k => step expects next fun s => bind (k s) f

instance : Monad (Program E S) where
  pure a := done (.ok a)
  bind := bind

/-- One step, which returns or raises what it says. -/
def atomic (expects : S → Prop) (f : S → Except E α × S) : Program E S α :=
  step expects (fun s => (f s).2) fun s => done (f s).1

def read (f : S → Except E α) : Program E S α :=
  atomic (fun _ => True) fun s => (f s, s)

def ofExcept (x : Except E α) : Program E S α :=
  done x

def run : Program E S α → S → Except E α × S
  | done x, s => (x, s)
  | step _ next k, s => run (k s) (next s)

/-- The states after each step of a program that runs alone. -/
def trace : Program E S α → S → List S
  | done _, _ => []
  | step _ next k, s => next s :: trace (k s) (next s)

/-- Every step finds what it expects when the program runs alone. -/
def Steady : Program E S α → S → Prop
  | done _, _ => True
  | step expects next k, s => expects s ∧ Steady (k s) (next s)

/-- A step that finds what it expects keeps `I`, and takes what is known from `g` to some `g'` with
`R g s s' g'`; in the end `Q` holds of what is known and of what is returned or raised. -/
def Tracks (I : S → Prop) (R : G → S → S → G → Prop) (Q : G → Except E α → Prop) :
    G → Program E S α → Prop
  | g, done x => Q g x
  | g, step expects next k =>
    ∀ s, I s → expects s → I (next s) ∧ ∃ g', R g s (next s) g' ∧ Tracks I R Q g' (k s)

/-- From related states the programs return or raise the same and end in related states. -/
def Agrees {S' : Type} (R : S → S' → Prop) (Q : α → Prop) (p : Program E S α)
    (p' : Program E S' α) : Prop :=
  ∀ s t, R s t →
    (run p s).1 = (run p' t).1 ∧ R (run p s).2 (run p' t).2 ∧ ∀ a, (run p s).1 = .ok a → Q a

@[simp] theorem run_pure (a : α) (s : S) : run (pure a : Program E S α) s = (.ok a, s) := rfl

@[simp] theorem run_ofExcept (x : Except E α) (s : S) :
    run (ofExcept x : Program E S α) s = (x, s) := rfl

@[simp] theorem run_atomic (expects : S → Prop) (f : S → Except E α × S) (s : S) :
    run (atomic expects f) s = f s := rfl

@[simp] theorem run_read (f : S → Except E α) (s : S) : run (read f) s = (f s, s) := rfl

theorem run_bind (p : Program E S α) (f : α → Program E S β) (s : S) :
    run (p >>= f) s =
      match run p s with
      | (.ok a, s') => run (f a) s'
      | (.error e, s') => (.error e, s') := by
  show run (bind p f) s = _
  induction p generalizing s with
  | done x => cases x <;> rfl
  | step expects next k ih => exact ih s (next s)

theorem run_bind_of_ok {p : Program E S α} {f : α → Program E S β} {s s' : S} {a : α}
    (h : run p s = (.ok a, s')) : run (p >>= f) s = run (f a) s' := by
  rw [run_bind, h]

theorem run_bind_of_error {p : Program E S α} {f : α → Program E S β} {s s' : S} {e : E}
    (h : run p s = (.error e, s')) : run (p >>= f) s = (.error e, s') := by
  rw [run_bind, h]

theorem run_bind_pure (p : Program E S α) (f : α → β) (s : S) :
    run (p >>= fun a => pure (f a)) s = ((run p s).1.map f, (run p s).2) := by
  rw [run_bind]
  rcases run p s with ⟨e | a, s'⟩ <;> rfl

/-! ### Alone -/

theorem steady_pure (a : α) (s : S) : Steady (pure a : Program E S α) s := trivial

theorem steady_ofExcept (x : Except E α) (s : S) : Steady (ofExcept x : Program E S α) s := trivial

theorem steady_atomic {expects : S → Prop} {f : S → Except E α × S} {s : S} (h : expects s) :
    Steady (atomic expects f) s := ⟨h, trivial⟩

theorem steady_read (f : S → Except E α) (s : S) : Steady (read f) s := ⟨trivial, trivial⟩

theorem Steady.bind {p : Program E S α} {f : α → Program E S β} {s : S} (h : Steady p s)
    (hf : ∀ a s', run p s = (.ok a, s') → Steady (f a) s') : Steady (p >>= f) s := by
  show Steady (Program.bind p f) s
  induction p generalizing s with
  | done x =>
    cases x with
    | ok a => exact hf a s rfl
    | error e => trivial
  | step expects next k ih => exact ⟨h.1, ih s h.2 hf⟩

/-! ### From any state -/

variable {I : S → Prop} {R : G → S → S → G → Prop} {Q : G → Except E α → Prop}
  {Q' : G → Except E β → Prop} {g : G}

theorem tracks_done {x : Except E α} (h : Q g x) : Tracks I R Q g (done x) := h

theorem tracks_ofExcept {x : Except E α} (h : Q g x) : Tracks I R Q g (ofExcept x) := h

theorem tracks_pure {a : α} (h : Q g (.ok a)) : Tracks I R Q g (pure a : Program E S α) := h

theorem tracks_atomic {expects : S → Prop} {f : S → Except E α × S}
    (h : ∀ s, I s → expects s → I (f s).2 ∧ ∃ g', R g s (f s).2 g' ∧ Q g' (f s).1) :
    Tracks I R Q g (atomic expects f) := h

theorem Tracks.bind {p : Program E S α} {f : α → Program E S β} (h : Tracks I R Q g p)
    (hok : ∀ g a, Q g (.ok a) → Tracks I R Q' g (f a))
    (herror : ∀ g e, Q g (.error e) → Q' g (.error e)) : Tracks I R Q' g (p >>= f) := by
  show Tracks I R Q' g (Program.bind p f)
  induction p generalizing g with
  | done x =>
    cases x with
    | ok a => exact hok g a h
    | error e => exact herror g e h
  | step expects next k ih =>
    intro s hs hexpects
    obtain ⟨hI, g', hR, hrest⟩ := h s hs hexpects
    exact ⟨hI, g', hR, ih s hrest⟩

theorem getLastD_trace (p : Program E S α) (s : S) : (trace p s).getLastD s = (run p s).2 := by
  induction p generalizing s with
  | done x => rfl
  | step expects next k ih =>
    show (next s :: trace (k s) (next s)).getLastD s = (run (k s) (next s)).2
    rw [List.getLastD_cons]
    exact ih s (next s)

theorem Tracks.isChain {T : S → S → Prop} {p : Program E S α} {s : S} (h : Tracks I R Q g p)
    (hR : ∀ g s s' g', R g s s' g' → T s s') (hI : I s) (hsteady : Steady p s) :
    List.IsChain T (s :: trace p s) ∧ (∀ t ∈ trace p s, I t) := by
  induction p generalizing s g with
  | done x => exact ⟨.singleton s, fun t ht => absurd ht List.not_mem_nil⟩
  | step expects next k ih =>
    obtain ⟨hnext, g', hstep, hrest⟩ := h s hI hsteady.1
    obtain ⟨hchain, hall⟩ := ih s hrest hnext hsteady.2
    refine ⟨.cons_cons (hR g s (next s) g' hstep) hchain, fun t ht => ?_⟩
    rcases List.mem_cons.mp ht with rfl | ht
    · exact hnext
    · exact hall t ht

theorem Tracks.run {p : Program E S α} {s : S} (h : Tracks I R Q g p) (hI : I s)
    (hsteady : Steady p s) : I (run p s).2 := by
  have hall := (h.isChain (T := fun _ _ => True) (fun _ _ _ _ _ => trivial) hI hsteady).2
  rw [← getLastD_trace]
  cases htrace : trace p s with
  | nil => exact hI
  | cons t ts =>
    rw [List.getLastD_cons]
    refine hall _ ?_
    rw [htrace]
    exact List.getLastD_mem_cons

/-! ### Two programs -/

section agrees

variable {S' : Type} {R : S → S' → Prop} {Q : α → Prop} {Q' : β → Prop}

theorem agrees_pure {a : α} (h : Q a) :
    Agrees R Q (pure a : Program E S α) (pure a : Program E S' α) := by
  intro s t hst
  refine ⟨rfl, hst, fun b hb => ?_⟩
  rw [← Except.ok.inj hb]
  exact h

theorem agrees_ofExcept {x : Except E α} (h : ∀ a, x = .ok a → Q a) :
    Agrees R Q (ofExcept x : Program E S α) (ofExcept x : Program E S' α) :=
  fun _ _ hst => ⟨rfl, hst, h⟩

theorem Agrees.bind {p : Program E S α} {p' : Program E S' α} {f : α → Program E S β}
    {f' : α → Program E S' β} (h : Agrees R Q p p')
    (hf : ∀ a, Q a → Agrees R Q' (f a) (f' a)) : Agrees R Q' (p >>= f) (p' >>= f') := by
  intro s t hst
  obtain ⟨heq, hrest, hQ⟩ := h s t hst
  rw [run_bind, run_bind]
  cases hp : run p s with
  | mk x s₁ =>
    cases hp' : run p' t with
    | mk x' t₁ =>
      rw [hp, hp'] at heq hrest
      rw [hp] at hQ
      obtain rfl : x = x' := heq
      cases x with
      | error e => exact ⟨rfl, hrest, fun a ha => by cases ha⟩
      | ok a => exact hf a (hQ a rfl) s₁ t₁ hrest

end agrees

end Program
