import Adaad.Py.Assoc

/-!
# Logs of changes to entries

Each record of a log tells of one entry of a store what it was before the change, if it was there,
and what it is after it.  `Leads change d rs d'` says that the changes of the records, one after the
other, make `d'` of `d`, and that each record tells what really was there.

Then an entry that the log has a record of is what the last of these says (`lookup_of_leads`), and
every record has for the state before what the record before it of the same entry has for the state
after (`prior_of_leads`).
-/

namespace EntryLog

/-- A change of an entry. -/
structure Change (K V : Type) where
  key : K
  prior : Option V
  post : V
  deriving DecidableEq

-- The test that `List.lookup` uses need not be the one that decides equality.
variable {K V R : Type} [DecidableEq K] [BEq K] (change : R → Change K V)

/-- The records are about what they say, and lead from `d` to `d'`. -/
def Leads : List (K × V) → List R → List (K × V) → Prop
  | d, [], d' => d' = d
  | d, r :: rs, d' =>
    (change r).prior = d.lookup (change r).key ∧
      Leads (Assoc.set d (change r).key (change r).post) rs d'

/-- What the last record of an entry says that it is. -/
def lastPost (rs : List R) (k : K) : Option V :=
  (rs.reverse.find? fun r => (change r).key = k).map fun r => (change r).post

variable {change} {d d' : List (K × V)} {rs rs' : List R} {r : R} {k : K}

@[simp] theorem leads_nil : Leads change d [] d' ↔ d' = d := Iff.rfl

theorem leads_append :
    Leads change d (rs ++ rs') d' ↔ ∃ mid, Leads change d rs mid ∧ Leads change mid rs' d' := by
  induction rs generalizing d with
  | nil =>
    constructor
    · exact fun h => ⟨d, rfl, h⟩
    · rintro ⟨mid, rfl, h⟩
      exact h
  | cons r rs ih =>
    constructor
    · rintro ⟨hprior, h⟩
      obtain ⟨mid, hmid, h⟩ := ih.mp h
      exact ⟨mid, ⟨hprior, hmid⟩, h⟩
    · rintro ⟨mid, ⟨hprior, hmid⟩, h⟩
      exact ⟨hprior, ih.mpr ⟨mid, hmid, h⟩⟩

omit [BEq K] in
theorem lastPost_cons :
    lastPost change (r :: rs) k =
      (lastPost change rs k).or (if (change r).key = k then some (change r).post else none) := by
  unfold lastPost
  rw [List.reverse_cons, List.find?_append, Option.map_or]
  congr 1
  by_cases h : (change r).key = k <;> simp [h]

omit [BEq K] in
theorem lastPost_eq_none_iff :
    lastPost change rs k = none ↔ k ∉ rs.map fun r => (change r).key := by
  unfold lastPost
  rw [Option.map_eq_none_iff, List.find?_eq_none]
  simp

variable [LawfulBEq K]

theorem lookup_eq_of_leads (h : Leads change d rs d') (k : K) :
    d'.lookup k = (lastPost change rs k).or (d.lookup k) := by
  induction rs generalizing d with
  | nil =>
    obtain rfl := h
    rfl
  | cons r rs ih =>
    rw [ih h.2, lastPost_cons, Assoc.lookup_set, Option.or_assoc]
    congr 1
    by_cases hk : (change r).key = k
    · rw [if_pos hk.symm, if_pos hk]
      rfl
    · rw [if_neg (Ne.symm hk), if_neg hk]
      rfl

theorem lookup_of_leads (h : Leads change [] rs d') (k : K) :
    d'.lookup k = lastPost change rs k := by
  rw [lookup_eq_of_leads h, List.lookup_nil, Option.or_none]

theorem prior_of_leads (h : Leads change [] (rs ++ r :: rs') d') :
    (change r).prior = lastPost change rs (change r).key := by
  obtain ⟨mid, hmid, hprior, -⟩ := leads_append.mp h
  rw [hprior, lookup_of_leads hmid]

end EntryLog
