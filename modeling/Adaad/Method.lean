import Mathlib.Logic.Basic

/-!
# Methods

A method of an object with a state may change the state, and may raise an exception; what it has
changed until then stays changed.

`Triple I m Q R` says what holds after `m` where `I` held before: `Q` if it returns, `R` if it
raises.  There is one rule for each way to build a method.
-/

/-- A method of an object with a state of type `S` that raises exceptions of type `E`. -/
abbrev Method (E S : Type) := ExceptT E (StateM S)

namespace Method

variable {E S α β : Type}

/-- Call the method: what it returns or raises, and the state it leaves. -/
def run (m : Method E S α) (s : S) : Except E α × S :=
  StateT.run (ExceptT.run m) s

def mk (f : S → Except E α × S) : Method E S α :=
  ExceptT.mk fun s => f s

def state : Method E S S :=
  mk fun s => (.ok s, s)

/-- A computation that does not depend on the state. -/
def ofExcept (x : Except E α) : Method E S α :=
  mk fun s => (x, s)

def change (f : S → S) : Method E S Unit :=
  mk fun s => (.ok (), f s)

@[simp] theorem run_mk (f : S → Except E α × S) (s : S) : run (mk f) s = f s := rfl

@[simp] theorem run_pure (a : α) (s : S) : run (pure a : Method E S α) s = (.ok a, s) := rfl

@[simp] theorem run_state (s : S) : run (state : Method E S S) s = (.ok s, s) := rfl

@[simp] theorem run_ofExcept (x : Except E α) (s : S) :
    run (ofExcept x : Method E S α) s = (x, s) := rfl

@[simp] theorem run_change (f : S → S) (s : S) :
    run (change f : Method E S Unit) s = (.ok (), f s) := rfl

theorem run_bind (m : Method E S α) (f : α → Method E S β) (s : S) :
    run (m >>= f) s =
      match run m s with
      | (.ok a, s') => run (f a) s'
      | (.error e, s') => (.error e, s') := by
  unfold run ExceptT.run StateT.run
  simp only [bind, ExceptT.bind, ExceptT.mk, StateT.bind, ExceptT.bindCont]
  rcases m s with ⟨e | a, s'⟩ <;> rfl

theorem run_bind_of_ok {m : Method E S α} {f : α → Method E S β} {s s' : S} {a : α}
    (h : run m s = (.ok a, s')) : run (m >>= f) s = run (f a) s' := by
  rw [run_bind, h]

theorem run_bind_of_error {m : Method E S α} {f : α → Method E S β} {s s' : S} {e : E}
    (h : run m s = (.error e, s')) : run (m >>= f) s = (.error e, s') := by
  rw [run_bind, h]

/-- Where `I` holds before, `Q` holds after the method has returned, and `R` after it has raised. -/
def Triple (I : S → Prop) (m : Method E S α) (Q : α → S → Prop) (R : S → Prop) : Prop :=
  ∀ s, I s →
    match run m s with
    | (.ok a, s') => Q a s'
    | (.error _, s') => R s'

variable {I : S → Prop} {Q : α → S → Prop} {Q' : β → S → Prop} {R : S → Prop}

theorem Triple.of_ok {m : Method E S α} {s s' : S} {a : α} (h : Triple I m Q R) (hs : I s)
    (hrun : run m s = (.ok a, s')) : Q a s' := by
  have := h s hs
  rwa [hrun] at this

theorem triple_pure {a : α} (h : ∀ s, I s → Q a s) : Triple I (pure a : Method E S α) Q R :=
  fun s hs => h s hs

theorem triple_state {Q : S → S → Prop} (h : ∀ s, I s → Q s s) :
    Triple I (state : Method E S S) Q R :=
  fun s hs => h s hs

theorem triple_ofExcept {x : Except E α} (hok : ∀ a, x = .ok a → ∀ s, I s → Q a s)
    (herror : ∀ s, I s → R s) : Triple I (ofExcept x : Method E S α) Q R := by
  intro s hs
  rw [run_ofExcept]
  cases x with
  | ok a => exact hok a rfl s hs
  | error e => exact herror s hs

theorem triple_change {f : S → S} {Q : Unit → S → Prop} (h : ∀ s, I s → Q () (f s)) :
    Triple I (change f : Method E S Unit) Q R :=
  fun s hs => h s hs

theorem Triple.bind {m : Method E S α} {f : α → Method E S β} (h : Triple I m Q R)
    (hf : ∀ a, Triple (Q a) (f a) Q' R) : Triple I (m >>= f) Q' R := by
  intro s hs
  have hm := h s hs
  rw [run_bind]
  rcases hrun : run m s with ⟨e | a, s'⟩ <;> rw [hrun] at hm
  · exact hm
  · exact hf a s' hm

theorem Triple.imp {I' : S → Prop} {Q' : α → S → Prop} {R' : S → Prop} {m : Method E S α}
    (h : Triple I m Q R) (hI : ∀ s, I' s → I s) (hQ : ∀ a s, Q a s → Q' a s) (hR : ∀ s, R s → R' s) :
    Triple I' m Q' R' := by
  intro s hs
  have hm := h s (hI s hs)
  rcases hrun : run m s with ⟨e | a, s'⟩ <;> rw [hrun] at hm
  · exact hR s' hm
  · exact hQ a s' hm

/-- `I` holds after the method where it held before, whether it returns or raises. -/
def Keeps (I : S → Prop) (m : Method E S α) : Prop :=
  Triple I m (fun _ => I) I

theorem keeps_pure {a : α} : Keeps I (pure a : Method E S α) :=
  triple_pure fun _ h => h

theorem keeps_state : Keeps I (state : Method E S S) :=
  triple_state fun _ h => h

theorem keeps_ofExcept {x : Except E α} : Keeps I (ofExcept x : Method E S α) :=
  triple_ofExcept (fun _ _ _ h => h) fun _ h => h

theorem keeps_change {f : S → S} (h : ∀ s, I s → I (f s)) : Keeps I (change f : Method E S Unit) :=
  triple_change h

theorem Keeps.bind {m : Method E S α} {f : α → Method E S β} (h : Keeps I m)
    (hf : ∀ a, Keeps I (f a)) : Keeps I (m >>= f) :=
  Triple.bind h hf

theorem Keeps.run {m : Method E S α} (h : Keeps I m) {s : S} (hs : I s) : I (Method.run m s).2 := by
  have hm := h s hs
  rcases hrun : Method.run m s with ⟨e | a, s'⟩ <;> rw [hrun] at hm
  · exact hm
  · exact hm

end Method
