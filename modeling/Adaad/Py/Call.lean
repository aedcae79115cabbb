import Adaad.Py.Assoc
import Adaad.Py.Value

/-!
# Calls

How the arguments of a call meet the parameters of the method that is called.  Nothing of the method
runs unless they fit.
-/

namespace Py

structure Parameter where
  name : Str
  /-- It comes after the `*`. -/
  keywordOnly : Bool
  /-- It has no default. -/
  required : Bool

/-- The arguments of a call. -/
structure Arguments (V : Type) where
  positional : List V
  keywords : List (Str × V)

section Calls

variable {S V R : Type}

/-- The names of the parameters that take an argument without a keyword. -/
def positionalNames (parameters : List Parameter) : List Str :=
  (parameters.filter fun p => !p.keywordOnly).map Parameter.name

/-- The parameters that the arguments without a keyword are for. -/
def filled (parameters : List Parameter) (a : Arguments V) : List Str :=
  (positionalNames parameters).take a.positional.length

/-- The arguments fit the parameters. -/
structure Fits (parameters : List Parameter) (a : Arguments V) : Prop where
  positional : a.positional.length ≤ (positionalNames parameters).length
  keywords : ∀ name ∈ Assoc.keys a.keywords,
    name ∈ parameters.map Parameter.name ∧ name ∉ filled parameters a
  required : ∀ p ∈ parameters, p.required = true →
    p.name ∈ filled parameters a ∨ p.name ∈ Assoc.keys a.keywords

instance (parameters : List Parameter) (a : Arguments V) : Decidable (Fits parameters a) :=
  decidable_of_iff
    (a.positional.length ≤ (positionalNames parameters).length ∧
      (∀ name ∈ Assoc.keys a.keywords,
        name ∈ parameters.map Parameter.name ∧ name ∉ filled parameters a) ∧
        ∀ p ∈ parameters, p.required = true →
          p.name ∈ filled parameters a ∨ p.name ∈ Assoc.keys a.keywords)
    ⟨fun h => ⟨h.1, h.2.1, h.2.2⟩, fun h => ⟨h.positional, h.keywords, h.required⟩⟩

def bound (parameters : List Parameter) (a : Arguments V) : List (Str × V) :=
  (positionalNames parameters).zip a.positional ++ a.keywords

variable (S V R) in
structure NamedMethod where
  name : Str
  parameters : List Parameter
  body : List (Str × V) → S → S × Except Exc R

/-- `self.name(…)` -/
def callMethod (methods : List (NamedMethod S V R)) (name : Str) (a : Arguments V) (self : S) :
    S × Except Exc R :=
  match methods.find? fun m => m.name = name with
  | none => (self, .error .attributeError)
  | some m =>
    if Fits m.parameters a then m.body (bound m.parameters a) self else (self, .error .typeError)

variable {methods : List (NamedMethod S V R)} {m : NamedMethod S V R} {name : Str} {a : Arguments V}

theorem callMethod_of_fits (h : methods.find? (fun m => m.name = name) = some m)
    (hfits : Fits m.parameters a) (self : S) :
    callMethod methods name a self = m.body (bound m.parameters a) self := by
  unfold callMethod
  rw [h]
  exact if_pos hfits

theorem callMethod_of_not_fits (h : methods.find? (fun m => m.name = name) = some m)
    (hfits : ¬ Fits m.parameters a) (self : S) :
    callMethod methods name a self = (self, .error .typeError) := by
  unfold callMethod
  rw [h]
  exact if_neg hfits

theorem not_fits_of_length {parameters : List Parameter}
    (h : (positionalNames parameters).length < a.positional.length) : ¬ Fits parameters a :=
  fun hfits => absurd hfits.positional (Nat.not_le_of_lt h)

end Calls

end Py
