import Mathlib.Data.List.Induction
import Mathlib.Data.List.Nodup

/-!
# Hash chains

A log in which every record carries the hash of the record before it and its own.  How a record
carries them, and what its own hash has to be, is a parameter (`Format`); the digest may be
undefined.

The results are about checking a log piece by piece: `valid_append` for two pieces in a row, and
`valid_append_iff_of_valid` for a second piece that was checked on its own, from a tail that
somebody remembered.

In a log whose records carry only their own hash (`Linked`), a record that was there before can be in
no other place: what is made of these records and is linked is a beginning of the log
(`prefix_of_linked`).
-/

namespace Chain

/-- How records of type `R` are chained by hashes of type `H`. -/
structure Format (H R : Type) where
  /-- The hash of the record before. -/
  prev : R → H
  /-- The record's own hash. -/
  hash : R → H
  /-- The hash that a record must have after a given one. -/
  digest : H → R → Option H

namespace Format

variable {H R : Type} (F : Format H R)

/-- The record follows a record with the hash `h`. -/
def Links (h : H) (r : R) : Prop :=
  F.prev r = h ∧ F.digest h r = some (F.hash r)

/-- Every record follows the one before it, and the first follows `h`. -/
def Valid : H → List R → Prop
  | _, [] => True
  | h, r :: rs => F.Links h r ∧ Valid (F.hash r) rs

/-- The hash of the last record, or `h` where there is none. -/
def tail : H → List R → H
  | h, [] => h
  | _, r :: rs => tail (F.hash r) rs

@[simp] theorem valid_nil (h : H) : F.Valid h [] := trivial

@[simp] theorem valid_cons {h : H} {r : R} {rs : List R} :
    F.Valid h (r :: rs) ↔ F.Links h r ∧ F.Valid (F.hash r) rs := Iff.rfl

@[simp] theorem tail_nil (h : H) : F.tail h [] = h := rfl

@[simp] theorem tail_cons (h : H) (r : R) (rs : List R) :
    F.tail h (r :: rs) = F.tail (F.hash r) rs := rfl

theorem tail_append (h : H) (rs rs' : List R) :
    F.tail h (rs ++ rs') = F.tail (F.tail h rs) rs' := by
  induction rs generalizing h with
  | nil => rfl
  | cons r rs ih => exact ih (F.hash r)

theorem tail_concat (h : H) (rs : List R) (r : R) : F.tail h (rs ++ [r]) = F.hash r := by
  rw [tail_append]
  rfl

theorem valid_append {h : H} {rs rs' : List R} :
    F.Valid h (rs ++ rs') ↔ F.Valid h rs ∧ F.Valid (F.tail h rs) rs' := by
  induction rs generalizing h with
  | nil => simp
  | cons r rs ih =>
    rw [List.cons_append, valid_cons, valid_cons, ih, tail_cons, and_assoc]

theorem valid_concat {h : H} {rs : List R} {r : R} :
    F.Valid h (rs ++ [r]) ↔ F.Valid h rs ∧ F.Links (F.tail h rs) r := by
  rw [valid_append, valid_cons]
  simp

theorem start_eq {h h' : H} {rs : List R} (hne : rs ≠ []) (hv : F.Valid h rs)
    (hv' : F.Valid h' rs) : h = h' := by
  cases rs with
  | nil => exact absurd rfl hne
  | cons r rs => exact hv.1.1.symm.trans hv'.1.1

/-- Checking a log from a remembered tail `p` on: this says something about the whole exactly when
the part before is a chain, and ends in `p` unless nothing follows. -/
theorem valid_append_iff_of_valid {h p : H} {rs rs' : List R} (hp : F.Valid p rs') :
    F.Valid h (rs ++ rs') ↔ F.Valid h rs ∧ (F.tail h rs = p ∨ rs' = []) := by
  rw [valid_append]
  constructor
  · rintro ⟨hrs, hrs'⟩
    by_cases hne : rs' = []
    · exact ⟨hrs, .inr hne⟩
    · exact ⟨hrs, .inl (F.start_eq hne hrs' hp)⟩
  · rintro ⟨hrs, rfl | rfl⟩
    · exact ⟨hrs, hp⟩
    · exact ⟨hrs, trivial⟩

theorem prev_eq_of_valid {h : H} {rs rs' : List R} {r r' : R}
    (hv : F.Valid h (rs ++ r :: r' :: rs')) : F.prev r' = F.hash r := by
  rw [valid_append, valid_cons, valid_cons] at hv
  exact hv.2.2.1.1

/-- Where the hash of a record tells the hash it follows, a chain that ends in a record of another
one, as its hash says, repeats the records that lead there. -/
theorem exists_suffix_of_valid {same : R → R → Prop} {start h : H} {rs as bs : List R} {r s : R}
    (hvalid : F.Valid start (as ++ s :: bs)) (hrs : F.Valid h (rs ++ [r]))
    (hsame : ∀ x ∈ rs ++ [r], ∀ y ∈ as ++ s :: bs, F.hash x = F.hash y →
      same x y ∧ F.prev x = F.prev y)
    (hstart : ∀ x ∈ rs, F.hash x ≠ start) (heq : F.hash r = F.hash s) :
    ∃ piece, piece <:+ as ++ [s] ∧ List.Forall₂ same (rs ++ [r]) piece := by
  induction rs using List.reverseRecOn generalizing r s as bs with
  | nil =>
    have hrs := (hsame r List.mem_cons_self s
      (List.mem_append_right _ List.mem_cons_self) heq).1
    exact ⟨[s], List.suffix_append _ _, .cons hrs .nil⟩
  | append_singleton rs r' ih =>
    have hmem : r ∈ rs ++ [r'] ++ [r] := List.mem_append_right _ List.mem_cons_self
    obtain ⟨hsamer, hprev⟩ :=
      hsame r hmem s (List.mem_append_right _ List.mem_cons_self) heq
    obtain ⟨hrs', hr⟩ := F.valid_concat.mp hrs
    rw [F.tail_concat] at hr
    -- The record before has the hash that the record of the other chain follows.
    have hbefore : F.hash r' = F.prev s := hr.1.symm.trans hprev
    rcases List.eq_nil_or_concat as with rfl | ⟨as, s', rfl⟩
    · have hs : F.prev s = start := (F.valid_cons.mp hvalid).1.1
      exact absurd (hbefore.trans hs) (hstart r' (List.mem_append_right _ List.mem_cons_self))
    · have hsplit : as.concat s' ++ s :: bs = as ++ s' :: s :: bs := List.concat_append
      rw [hsplit] at hvalid hsame
      have hs : F.prev s = F.hash s' := F.prev_eq_of_valid hvalid
      obtain ⟨piece, hpiece, hall⟩ := ih hvalid hrs'
        (fun x hx => hsame x (List.mem_append_left _ hx))
        (fun x hx => hstart x (List.mem_append_left _ hx)) (hbefore.trans hs)
      obtain ⟨before, hbefore⟩ := hpiece
      refine ⟨piece ++ [s], ⟨before, ?_⟩, List.rel_append hall (.cons hsamer .nil)⟩
      rw [List.concat_eq_append, ← hbefore, List.append_assoc]

end Format

/-! ### Records that do not name the hash before them -/

section linked

variable {H R : Type} (follows : H → R → Prop) (hash : R → H)

/-- Every record follows the hash of the one before it, and the first follows `h`. -/
def Linked : H → List R → Prop
  | _, [] => True
  | h, r :: rs => follows h r ∧ Linked (hash r) rs

/-- The hash of the last record, or `h` where there is none. -/
def lastHash : H → List R → H
  | h, [] => h
  | _, r :: rs => lastHash (hash r) rs

variable {follows hash} {h : H} {rs rs' : List R} {r : R}

theorem linked_append :
    Linked follows hash h (rs ++ rs') ↔
      Linked follows hash h rs ∧ Linked follows hash (lastHash hash h rs) rs' := by
  induction rs generalizing h with
  | nil => exact (and_iff_right trivial).symm
  | cons r rs ih => exact (and_congr_right fun _ => ih).trans and_assoc.symm

theorem linked_concat :
    Linked follows hash h (rs ++ [r]) ↔
      Linked follows hash h rs ∧ follows (lastHash hash h rs) r :=
  linked_append.trans (and_congr_right fun _ => and_iff_left trivial)

theorem lastHash_concat : lastHash hash h (rs ++ [r]) = hash r := by
  induction rs generalizing h with
  | nil => rfl
  | cons r' rs ih => exact ih

theorem lastHash_eq : lastHash hash h rs = (rs.getLast?.map hash).getD h := by
  induction rs using List.reverseRecOn with
  | nil => rfl
  | append_singleton rs r _ =>
    rw [lastHash_concat, List.getLast?_concat]
    rfl

theorem getElem?_hashes (h : H) (rs rs' : List R) :
    (h :: (rs ++ rs').map hash)[rs.length]? = some (lastHash hash h rs) := by
  induction rs generalizing h with
  | nil => rfl
  | cons r rs ih => exact ih (hash r)

theorem lastHash_mem (h : H) (rs rs' : List R) :
    lastHash hash h rs ∈ h :: (rs ++ rs').map hash :=
  List.mem_of_getElem? (getElem?_hashes h rs rs')

theorem length_eq_of_lastHash_eq {as bs as' bs' : List R} (hnodup : (h :: rs.map hash).Nodup)
    (ha : rs = as ++ bs) (ha' : rs = as' ++ bs') (heq : lastHash hash h as = lastHash hash h as') :
    as.length = as'.length := by
  have hget : (h :: (as ++ bs).map hash)[as.length]? = some (lastHash hash h as) :=
    getElem?_hashes h as bs
  have hget' : (h :: (as' ++ bs').map hash)[as'.length]? = some (lastHash hash h as') :=
    getElem?_hashes h as' bs'
  rw [← ha] at hget
  rw [← ha', ← heq, ← hget] at hget'
  have hlt : as.length < (h :: rs.map hash).length := by
    rw [List.length_cons, List.length_map, ha, List.length_append]
    omega
  exact (List.getElem?_inj hlt hnodup).mp hget'.symm

theorem nodup_hashes (hlinked : Linked follows hash h rs) (hfirst : ∀ r ∈ rs, hash r ≠ h)
    (hback : ∀ p ∈ h :: rs.map hash, ∀ q ∈ h :: rs.map hash, ∀ r ∈ rs, ∀ r' ∈ rs,
      follows p r → follows q r' → hash r = hash r' → p = q) :
    (h :: rs.map hash).Nodup := by
  induction rs using List.reverseRecOn with
  | nil => exact List.nodup_singleton h
  | append_singleton rs r ih =>
    obtain ⟨hrs, hr⟩ := linked_concat.mp hlinked
    have hsub : ∀ {p}, p ∈ h :: rs.map hash → p ∈ h :: (rs ++ [r]).map hash := fun hp => by
      rw [List.map_append]
      exact List.mem_append_left ([r].map hash) hp
    have hold := ih hrs (fun r' hr' => hfirst r' (List.mem_append_left _ hr'))
      fun p hp q hq r₁ h₁ r₂ h₂ => hback p (hsub hp) q (hsub hq) r₁ (List.mem_append_left _ h₁) r₂
        (List.mem_append_left _ h₂)
    rw [List.map_append, List.map_singleton, ← List.cons_append]
    refine List.nodup_append.mpr ⟨hold, List.nodup_singleton _, ?_⟩
    rintro x hx y hy rfl
    obtain rfl := List.mem_singleton.mp hy
    rcases List.mem_cons.mp hx with heq | hx
    · exact hfirst r (List.mem_append_right _ (List.mem_singleton_self r)) heq
    -- the same hash earlier in the log follows the same hash, which is at one place only
    · obtain ⟨r', hr', heq⟩ := List.mem_map.mp hx
      obtain ⟨as, bs, hsplit⟩ := List.append_of_mem hr'
      have hr₁ : follows (lastHash hash h as) r' := by
        rw [hsplit] at hrs
        exact (linked_append.mp hrs).2.1
      have hlast : lastHash hash h rs = lastHash hash h as :=
        hback _ (lastHash_mem h rs [r]) _ (hsub (hsplit ▸ lastHash_mem h as (r' :: bs))) r
          (List.mem_append_right _ (List.mem_singleton_self r)) r' (List.mem_append_left _ hr') hr hr₁
          heq.symm
      have hlength := length_eq_of_lastHash_eq hold (List.append_nil rs).symm hsplit hlast
      rw [hsplit, List.length_append, List.length_cons] at hlength
      omega

theorem prefix_of_linked (hlinked : Linked follows hash h rs) (hnodup : (h :: rs.map hash).Nodup)
    (hback : ∀ p ∈ h :: rs.map hash, ∀ q ∈ h :: rs.map hash, ∀ r ∈ rs,
      follows p r → follows q r → p = q)
    (hlinked' : Linked follows hash h rs') (hsub : ∀ r ∈ rs', r ∈ rs) : rs' <+: rs := by
  induction rs' using List.reverseRecOn with
  | nil => exact List.nil_prefix
  | append_singleton rs' r ih =>
    obtain ⟨hrs', hr⟩ := linked_concat.mp hlinked'
    obtain ⟨bs', hbs'⟩ := ih hrs' fun r' hr' => hsub r' (List.mem_append_left _ hr')
    have hmem := hsub r (List.mem_append_right _ (List.mem_singleton_self r))
    obtain ⟨as, bs, hsplit⟩ := List.append_of_mem hmem
    have hr₁ : follows (lastHash hash h as) r := by
      rw [hsplit] at hlinked
      exact (linked_append.mp hlinked).2.1
    have hlast : lastHash hash h rs' = lastHash hash h as :=
      hback _ (hbs' ▸ lastHash_mem h rs' bs') _ (hsplit ▸ lastHash_mem h as (r :: bs)) r hmem hr hr₁
    have hlength := length_eq_of_lastHash_eq hnodup hbs'.symm hsplit hlast
    obtain ⟨heq, -⟩ := List.append_inj (hbs'.trans hsplit) hlength
    refine ⟨bs, ?_⟩
    rw [heq, hsplit, List.append_assoc]
    rfl

end linked

end Chain
