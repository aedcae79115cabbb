import Mathlib.Data.List.Basic

/-!
# Runs of a machine

A machine takes actions one after the other; an action holds everything that the machine does not
decide itself.  `Meets ok s as` says that each action of a run is one that `ok` admits in the state
it is taken in, and `Always I s as` that `I` holds in every state the run goes through.

`always_of_step` takes an invariant of one step to every run.  Where the step keeps the invariant
exactly under a condition, so does every run (`always_iff_meets`).
-/

namespace Run

variable {S A : Type} (step : S → A → S)

def run (s : S) (as : List A) : S :=
  as.foldl step s

/-- Every action is taken in a state in which it is `ok`. -/
def Meets (ok : S → A → Prop) : S → List A → Prop
  | _, [] => True
  | s, a :: as => ok s a ∧ Meets ok (step s a) as

/-- Every state of the run, the first and the last one included, has the property. -/
def Always (I : S → Prop) : S → List A → Prop
  | s, [] => I s
  | s, a :: as => I s ∧ Always I (step s a) as

/-- `R` holds from every state of the run to each that comes after it, and to itself. -/
def Henceforth (R : S → S → Prop) : S → List A → Prop
  | s, [] => R s s
  | s, a :: as => Always step (R s) s (a :: as) ∧ Henceforth R (step s a) as

instance decidableMeets (ok : S → A → Prop) [∀ s a, Decidable (ok s a)] :
    (s : S) → (as : List A) → Decidable (Meets step ok s as)
  | _, [] => isTrue trivial
  | s, a :: as => @instDecidableAnd _ _ _ (decidableMeets ok (step s a) as)

variable {step} {ok ok' : S → A → Prop} {I J : S → Prop} {s : S} {a : A} {as bs : List A}

@[simp] theorem run_nil : run step s [] = s := rfl

@[simp] theorem run_cons : run step s (a :: as) = run step (step s a) as := rfl

theorem run_append : run step s (as ++ bs) = run step (run step s as) bs :=
  List.foldl_append

theorem meets_append :
    Meets step ok s (as ++ bs) ↔ Meets step ok s as ∧ Meets step ok (run step s as) bs := by
  induction as generalizing s with
  | nil => exact (true_and _).symm.to_iff
  | cons a as ih => exact (and_congr_right fun _ => ih).trans and_assoc.symm

theorem Meets.imp (h : ∀ s a, ok s a → ok' s a) (hm : Meets step ok s as) :
    Meets step ok' s as := by
  induction as generalizing s with
  | nil => trivial
  | cons a as ih => exact ⟨h s a hm.1, ih hm.2⟩

theorem meets_congr (h : ∀ s a, ok s a ↔ ok' s a) :
    Meets step ok s as ↔ Meets step ok' s as :=
  ⟨Meets.imp fun s a => (h s a).mp, Meets.imp fun s a => (h s a).mpr⟩

theorem meets_and :
    Meets step (fun s a => ok s a ∧ ok' s a) s as ↔ Meets step ok s as ∧ Meets step ok' s as := by
  induction as generalizing s with
  | nil => exact (and_self_iff).symm
  | cons a as ih =>
    show _ ∧ _ ↔ (_ ∧ _) ∧ (_ ∧ _)
    rw [ih, and_and_and_comm]

theorem meets_of_forall_mem (h : ∀ a ∈ as, ∀ s, ok s a) : Meets step ok s as := by
  induction as generalizing s with
  | nil => trivial
  | cons a as ih => exact ⟨h a (by simp) s, ih fun b hb => h b (by simp [hb])⟩

theorem meets_iff_forall {ok : A → Prop} :
    Meets step (fun _ a => ok a) s as ↔ ∀ a ∈ as, ok a := by
  induction as generalizing s with
  | nil => exact iff_of_true trivial fun a h => absurd h List.not_mem_nil
  | cons a as ih => exact (and_congr_right fun _ => ih).trans List.forall_mem_cons.symm

theorem meets_iff_forall_append :
    Meets step ok s as ↔
      ∀ before a after, as = before ++ a :: after → ok (run step s before) a := by
  constructor
  · rintro h before a after rfl
    exact (meets_append.mp h).2.1
  · intro h
    induction as generalizing s with
    | nil => trivial
    | cons a as ih =>
      refine ⟨h [] a as rfl, ih fun before b after heq => ?_⟩
      exact h (a :: before) b after (by rw [heq, List.cons_append])

theorem Always.imp (h : ∀ s, I s → J s) (ha : Always step I s as) : Always step J s as := by
  induction as generalizing s with
  | nil => exact h s ha
  | cons a as ih => exact ⟨h s ha.1, ih ha.2⟩

theorem Always.first (h : Always step I s as) : I s := by
  cases as with
  | nil => exact h
  | cons a as => exact h.1

theorem Always.last (h : Always step I s as) : I (run step s as) := by
  induction as generalizing s with
  | nil => exact h
  | cons a as ih => exact ih h.2

theorem always_of_step (hstep : ∀ s a, I s → ok s a → I (step s a)) (hs : I s)
    (h : Meets step ok s as) : Always step I s as := by
  induction as generalizing s with
  | nil => exact hs
  | cons a as ih => exact ⟨hs, ih (hstep s a hs h.1) h.2⟩

theorem always_of_forall_step (hstep : ∀ s a, I s → I (step s a)) (hs : I s) (as : List A) :
    Always step I s as := by
  induction as generalizing s with
  | nil => exact hs
  | cons a as ih => exact ⟨hs, ih (hstep s a hs)⟩

/-- Where a step keeps `I` exactly when it is `ok`, provided that `J` holds, which every step keeps,
a run keeps `I` in all its states exactly when all its steps are `ok`. -/
theorem always_iff_meets_of_invariant (hJ : ∀ s a, J s → J (step s a))
    (hstep : ∀ s a, J s → I s → (I (step s a) ↔ ok s a)) (hJs : J s) (hs : I s) :
    Always step I s as ↔ Meets step ok s as := by
  induction as generalizing s with
  | nil => exact iff_of_true hs trivial
  | cons a as ih =>
    constructor
    · rintro ⟨-, hrest⟩
      have hnext := hrest.first
      exact ⟨(hstep s a hJs hs).mp hnext, (ih (hJ s a hJs) hnext).mp hrest⟩
    · rintro ⟨hok, hrest⟩
      have hnext := (hstep s a hJs hs).mpr hok
      exact ⟨hs, (ih (hJ s a hJs) hnext).mpr hrest⟩

theorem always_iff_meets (hstep : ∀ s a, I s → (I (step s a) ↔ ok s a)) (hs : I s) :
    Always step I s as ↔ Meets step ok s as :=
  always_iff_meets_of_invariant (J := fun _ => True) (fun _ _ _ => trivial)
    (fun s a _ => hstep s a) trivial hs

/-- Where `J` brings `I` with it, the steps that are `ok` keep `J`, and from `J` only they lead to
`I`, a run keeps `I` in all its states exactly when all its steps are `ok`. -/
theorem always_iff_meets_of_kept (hI : ∀ s, J s → I s) (hJ : ∀ s a, J s → ok s a → J (step s a))
    (hok : ∀ s a, J s → I (step s a) → ok s a) (hJs : J s) :
    Always step I s as ↔ Meets step ok s as := by
  induction as generalizing s with
  | nil => exact iff_of_true (hI s hJs) trivial
  | cons a as ih =>
    constructor
    · rintro ⟨-, hrest⟩
      have ha := hok s a hJs hrest.first
      exact ⟨ha, (ih (hJ s a hJs ha)).mp hrest⟩
    · rintro ⟨ha, hrest⟩
      exact ⟨hI s hJs, (ih (hJ s a hJs ha)).mpr hrest⟩

theorem Meets.of_step (hstep : ∀ s a, J s → ok s a → J (step s a) ∧ ok' s a) (hJs : J s)
    (h : Meets step ok s as) : Meets step ok' s as := by
  induction as generalizing s with
  | nil => trivial
  | cons a as ih =>
    obtain ⟨hnext, ha⟩ := hstep s a hJs h.1
    exact ⟨ha, ih hnext h.2⟩

theorem meets_congr_of_kept (hJ : ∀ s a, J s → ok s a → J (step s a))
    (hok : ∀ s a, J s → (ok s a ↔ ok' s a)) (hJs : J s) :
    Meets step ok s as ↔ Meets step ok' s as := by
  induction as generalizing s with
  | nil => exact Iff.rfl
  | cons a as ih =>
    constructor
    · rintro ⟨ha, hrest⟩
      exact ⟨(hok s a hJs).mp ha, (ih (hJ s a hJs ha)).mp hrest⟩
    · rintro ⟨ha, hrest⟩
      have ha := (hok s a hJs).mpr ha
      exact ⟨ha, (ih (hJ s a hJs ha)).mpr hrest⟩

/-- Where the steps that are `good` keep `J`, and under `J` two conditions on a step are the same,
they are the same for a run of good steps. -/
theorem meets_congr_of_step {good : S → A → Prop} (hJ : ∀ s a, J s → good s a → J (step s a))
    (hok : ∀ s a, J s → (ok s a ↔ ok' s a)) (hJs : J s) (h : Meets step good s as) :
    Meets step ok s as ↔ Meets step ok' s as := by
  induction as generalizing s with
  | nil => exact Iff.rfl
  | cons a as ih => exact and_congr (hok s a hJs) (ih (hJ s a hJs h.1) h.2)

theorem meets_congr_of_invariant (hJ : ∀ s a, J s → J (step s a))
    (hok : ∀ s a, J s → (ok s a ↔ ok' s a)) (hJs : J s) :
    Meets step ok s as ↔ Meets step ok' s as :=
  meets_congr_of_step (fun s a h _ => hJ s a h) hok hJs
    (meets_of_forall_mem fun _ _ _ => trivial : Meets step (fun _ _ => True) s as)

/-! ### Logs

`log` is a part of the state to which an action adds at most one record.
-/

section Logged

variable (step) {R : Type} (log : S → List R) (Q : S → A → R → Prop)

/-- Every record that the run has added to the log was added by an action that has `Q` with it, in
the state it was taken in. -/
def Logged (s : S) (as : List A) : Prop :=
  ∀ k r, (log s).length ≤ k → (log (run step s as))[k]? = some r →
    ∃ before a after, as = before ++ a :: after ∧ (log (run step s before)).length = k ∧
      log (step (run step s before) a) = log (run step s before) ++ [r] ∧ Q (run step s before) a r

variable {step log Q}

theorem prefix_log_run (hlog : ∀ s a, log (step s a) = log s ∨ ∃ r, log (step s a) = log s ++ [r])
    (s : S) (as : List A) : log s <+: log (run step s as) := by
  induction as generalizing s with
  | nil => exact List.prefix_rfl
  | cons a as ih =>
    refine List.IsPrefix.trans ?_ (ih (step s a))
    rcases hlog s a with heq | ⟨r, heq⟩
    · exact heq ▸ List.prefix_rfl
    · rw [heq]
      exact List.prefix_append _ _

theorem logged_iff_meets
    (hlog : ∀ s a, log (step s a) = log s ∨ ∃ r, log (step s a) = log s ++ [r]) :
    Logged step log Q s as ↔
      Meets step (fun s a => ∀ r, log (step s a) = log s ++ [r] → Q s a r) s as := by
  induction as generalizing s with
  | nil =>
    refine iff_of_true (fun k r hk hr => ?_) trivial
    rw [run_nil, List.getElem?_eq_none hk] at hr
    cases hr
  | cons a as ih =>
    have hle : (log s).length ≤ (log (step s a)).length :=
      (prefix_log_run hlog s [a]).length_le
    constructor
    · intro h
      refine ⟨fun r hr => ?_, ih.mp fun k r hk hget => ?_⟩
      · -- The record is at the end of the log after the first step, so no later step added it.
        have hget : (log (step s a))[(log s).length]? = some r := by
          rw [hr, List.getElem?_concat_length]
        obtain ⟨rest, hrest⟩ := prefix_log_run hlog (step s a) as
        have hlt : (log s).length < (log (step s a)).length := by
          rw [hr, List.length_append]
          exact Nat.lt_add_one _
        obtain ⟨before, b, after, heq, hlen, hadd, hQ⟩ := h (log s).length r (Nat.le_refl _) (by
          rw [run_cons, ← hrest, List.getElem?_append_left hlt, hget])
        cases before with
        | nil =>
          obtain ⟨rfl, rfl⟩ := List.cons.inj heq
          exact hQ
        | cons c before =>
          obtain ⟨rfl, rfl⟩ := List.cons.inj heq
          have := (prefix_log_run hlog (step s a) before).length_le
          rw [run_cons] at hlen
          omega
      · obtain ⟨before, b, after, heq, hlen, hadd, hQ⟩ := h k r (Nat.le_trans hle hk) hget
        cases before with
        | nil =>
          obtain ⟨rfl, rfl⟩ := List.cons.inj heq
          rw [run_nil] at hadd hlen
          rw [hadd, List.length_append, hlen, List.length_singleton] at hk
          omega
        | cons c before =>
          obtain ⟨rfl, rfl⟩ := List.cons.inj heq
          exact ⟨before, b, after, rfl, hlen, hadd, hQ⟩
    · rintro ⟨hfirst, hrest⟩ k r hk hget
      by_cases hlater : (log (step s a)).length ≤ k
      · obtain ⟨before, b, after, rfl, hlen, hadd, hQ⟩ := ih.mpr hrest k r hlater hget
        exact ⟨a :: before, b, after, rfl, hlen, hadd, hQ⟩
      · obtain ⟨rest, hsuffix⟩ := prefix_log_run hlog (step s a) as
        rw [run_cons, ← hsuffix, List.getElem?_append_left (Nat.lt_of_not_le hlater)] at hget
        rcases hlog s a with heq | ⟨r', heq⟩
        · rw [heq] at hlater
          exact absurd hk hlater
        · have hlen : (log s).length = k := by
            rw [heq, List.length_append, List.length_singleton] at hlater
            omega
          rw [heq, ← hlen, List.getElem?_concat_length] at hget
          obtain rfl := Option.some.inj hget
          exact ⟨[], a, as, rfl, hlen, heq, hfirst r' heq⟩

end Logged

theorem henceforth_iff_meets {R : S → S → Prop} (hrefl : ∀ s, R s s)
    (htrans : ∀ s t u, R s t → R t u → R s u) :
    Henceforth step R s as ↔ Meets step (fun s a => R s (step s a)) s as := by
  have halways : ∀ (as : List A) (r s : S), R r s →
      Meets step (fun s a => R s (step s a)) s as → Always step (R r) s as := by
    intro as
    induction as with
    | nil => exact fun r s hrs _ => hrs
    | cons a as ih => exact fun r s hrs h => ⟨hrs, ih r _ (htrans r s _ hrs h.1) h.2⟩
  induction as generalizing s with
  | nil => exact iff_of_true (hrefl s) trivial
  | cons a as ih =>
    constructor
    · rintro ⟨hs, hrest⟩
      exact ⟨hs.2.first, ih.mp hrest⟩
    · intro h
      exact ⟨halways (a :: as) s s (hrefl s) h, ih.mpr h.2⟩

end Run
