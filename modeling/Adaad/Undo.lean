import Mathlib.Data.List.Infix
import Mathlib.Data.List.TakeDrop
import Mathlib.Logic.Function.Basic

/-!
# Undo logs

Before a value is overwritten, the place and the value that it has are put at the end of a log.
Putting the values back, the last one first, undoes all the writes: `Saves s log s'` says that this
takes the state `s'` back to `s`.
-/

namespace Undo

variable {L V : Type} [DecidableEq L]

/-- Put the saved values back, the last one first. -/
def undo (log : List (L × V)) (s : L → V) : L → V :=
  log.foldr (fun e s => Function.update s e.1 e.2) s

/-- The log takes `s'` back to `s`. -/
def Saves (s : L → V) (log : List (L × V)) (s' : L → V) : Prop :=
  undo log s' = s

variable {log log' : List (L × V)} {s s' : L → V} {l : L}

@[simp] theorem undo_nil (s : L → V) : undo [] s = s := rfl

@[simp] theorem undo_cons (e : L × V) (log : List (L × V)) (s : L → V) :
    undo (e :: log) s = Function.update (undo log s) e.1 e.2 := rfl

theorem undo_append (log log' : List (L × V)) (s : L → V) :
    undo (log ++ log') s = undo log (undo log' s) :=
  List.foldr_append

theorem undo_apply_congr (h : l ∉ log.map Prod.fst → s l = s' l) :
    undo log s l = undo log s' l := by
  induction log with
  | nil => exact h List.not_mem_nil
  | cons e log ih =>
    rw [undo_cons, undo_cons]
    by_cases hl : l = e.1
    · rw [hl, Function.update_self, Function.update_self]
    · rw [Function.update_of_ne hl, Function.update_of_ne hl]
      refine ih fun hlog => h ?_
      rw [List.map_cons, List.mem_cons, not_or]
      exact ⟨hl, hlog⟩

theorem undo_update_of_mem (h : l ∈ log.map Prod.fst) (s : L → V) (v : V) :
    undo log (Function.update s l v) = undo log s := by
  funext x
  refine undo_apply_congr fun hx => Function.update_of_ne ?_ v s
  rintro rfl
  exact hx h

theorem undo_update_of_notMem (h : l ∉ log.map Prod.fst) (s : L → V) (v : V) :
    undo log (Function.update s l v) = Function.update (undo log s) l v := by
  induction log with
  | nil => rfl
  | cons e log ih =>
    rw [List.map_cons, List.mem_cons, not_or] at h
    rw [undo_cons, undo_cons, ih h.2, Function.update_comm h.1]

theorem saves_nil (s : L → V) : Saves s [] s := rfl

theorem Saves.write (h : Saves s log s') (l : L) (v : V) :
    Saves s (log ++ [(l, s' l)]) (Function.update s' l v) := by
  unfold Saves
  rw [undo_append, undo_cons, undo_nil, Function.update_idem, Function.update_eq_self]
  exact h

theorem Saves.overwrite (h : Saves s log s') (hl : l ∈ log.map Prod.fst) (v : V) :
    Saves s log (Function.update s' l v) :=
  (undo_update_of_mem hl s' v).trans h

end Undo

/-!
## Writes one after the other

A call does its writes one after the other.  The process may stop between two of them; then the
writes `done` before that are all that is left of the call.
-/

namespace Writes

variable {S W : Type}

def after (write : S → W → S) (s : S) (ws : List W) : S :=
  ws.foldl write s

/-- The writes that are done where the process stops after some number of them. -/
def done (stop : Option Nat) (ws : List W) : List W :=
  (stop.map ws.take).getD ws

/-- The process does not stop before the last write. -/
def Finishes (stop : Option Nat) (ws : List W) : Prop :=
  ∀ n ∈ stop, ws.length ≤ n

instance (stop : Option Nat) (ws : List W) : Decidable (Finishes stop ws) :=
  inferInstanceAs (Decidable (∀ n ∈ stop, ws.length ≤ n))

variable {write : S → W → S} {s : S} {w : W} {ws ws' : List W} {stop : Option Nat}

@[simp] theorem after_nil : after write s [] = s := rfl

@[simp] theorem after_cons : after write s (w :: ws) = after write (write s w) ws := rfl

theorem after_append : after write s (ws ++ ws') = after write (after write s ws) ws' :=
  List.foldl_append

@[simp] theorem done_none : done none ws = ws := rfl

theorem done_prefix (stop : Option Nat) (ws : List W) : done stop ws <+: ws := by
  cases stop with
  | none => exact List.prefix_rfl
  | some n => exact List.take_prefix n ws

theorem done_eq_of_finishes (h : Finishes stop ws) : done stop ws = ws := by
  cases stop with
  | none => rfl
  | some n => exact List.take_of_length_le (h n rfl)

theorem done_cases (stop : Option Nat) (ws : List W) (a b : W) (rest : List W) :
    done stop (ws ++ a :: b :: rest) <+: ws ++ [a] ∨
      ∃ rest', rest' <+: rest ∧ done stop (ws ++ a :: b :: rest) = ws ++ a :: b :: rest' := by
  have hwhole : ws ++ a :: b :: rest = (ws ++ [a]) ++ [b] ++ rest := by simp
  have hdone := done_prefix stop (ws ++ a :: b :: rest)
  generalize done stop (ws ++ a :: b :: rest) = d at hdone
  rw [hwhole] at hdone
  rcases List.prefix_or_prefix_of_prefix hdone (List.prefix_append _ rest) with hd | ⟨rest', rfl⟩
  · rcases List.prefix_concat_iff.mp hd with rfl | hd
    · exact .inr ⟨[], List.nil_prefix, by simp⟩
    · exact .inl hd
  · exact .inr ⟨rest', (List.prefix_append_right_inj _).mp hdone, by simp⟩
theorem after_of_forall {I : S → Prop} {ok : W → Prop}
    (hwrite : ∀ s w, I s → ok w → I (write s w)) (hs : I s) (hws : ∀ w ∈ ws, ok w) :
    I (after write s ws) := by
  induction ws generalizing s with
  | nil => exact hs
  | cons w ws ih =>
    exact ih (hwrite s w hs (hws w List.mem_cons_self)) fun w' hw' =>
      hws w' (List.mem_cons_of_mem w hw')

theorem after_frame {α : Type} {f : S → α} (h : ∀ s, ∀ w ∈ ws, f (write s w) = f s) :
    f (after write s ws) = f s := by
  induction ws generalizing s with
  | nil => rfl
  | cons w ws ih =>
    rw [after_cons, ih fun s' w' hw' => h s' w' (List.mem_cons_of_mem w hw')]
    exact h s w List.mem_cons_self

end Writes
