import Adaad.Federation.MutationLock
import Adaad.Py.Json.Equiv.Ascii
import Adaad.Py.Json.Equiv.Sort
import Adaad.Py.Reference

/-!
# Mutual exclusion of mutation locks

In a run in which nobody removes a lock file that one of the calls has created, at most one call
acquires the lock; and once somebody does, two calls acquire it if all calls come to their ends
(`atMostOne_iff`).

A call takes the lock file of another one for stale only before it is written: within one lifetime
of a lock, it is enough that nobody creates the file while another call is about to remove it, and
that nobody reads it a second time while it is still empty (`meets_sparing_of_timely`).
-/

namespace Adaad.MutationLock

open Py Run

variable {P : Platform} {c : Setting P} {s s' : State} {a : Action} {as : List Action}

/-! ### What a step does -/

@[simp] theorem point_goto (s : State) (p : Nat) (q : Point) (r : Nat) :
    (s.goto p q).point r = if r = p then q else s.point r :=
  Function.update_apply _ _ _ _

@[simp] theorem lockFile_goto (s : State) (p : Nat) (q : Point) :
    (s.goto p q).lockFile = s.lockFile := rfl

/-- What a step can do: it leaves the files alone, removes the lock file, creates one, or writes
one. -/
inductive Change (c : Setting P) (s : State) (a : Action) : State → Prop
  | quiet (q : Point) (held : q.held = (s.point a.call).held)
      (create : s.point a.call = .create → s.path ≠ none)
      (write : ∀ file acquiredAt, q ≠ .write file acquiredAt)
      (unlink : q = .unlink →
        s.point a.call = .secondRead ∧ lockIsStale c s.content a.now = some true) :
      Change c s a (s.goto a.call q)
  | remove (h : s.point a.call = .unlink) :
      Change c s a ({ s with path := none }.goto a.call .create)
  | create (h : s.point a.call = .create) (hpath : s.path = none) :
      Change c s a ({ s with
        path := some s.files.length
        files := s.files ++ [LockFile.mk (some a.call) []] }.goto a.call (.write s.files.length a.now))
  | write (file : Nat) (acquiredAt : Int) (h : s.point a.call = .write file acquiredAt) :
      Change c s a ({ s with
        files := s.files.modify file fun f => { f with content := lockPayload c acquiredAt } }.goto
          a.call (.returned true))

theorem change (c : Setting P) (s : State) (a : Action) :
    Change c s a (acquireMutationLock c s a) := by
  unfold acquireMutationLock
  rcases hp : s.point a.call with _ | _ | _ | _ | _ | _ | ⟨file, acquiredAt⟩ | acquired | _
  case firstExists =>
    apply Change.quiet
    · rw [hp]
      split_ifs <;> rfl
    · rw [hp]
      exact nofun
    · split_ifs <;> exact nofun
    · split_ifs <;> exact nofun
  case firstRead =>
    rcases lockIsStale c s.content a.now with _ | _ | _
    all_goals
      apply Change.quiet
      · rw [hp]
        rfl
      · rw [hp]
        exact nofun
      · exact nofun
      · exact nofun
  case secondExists =>
    apply Change.quiet
    · rw [hp]
      split_ifs <;> rfl
    · rw [hp]
      exact nofun
    · split_ifs <;> exact nofun
    · split_ifs <;> exact nofun
  case secondRead =>
    have hcreate : s.point a.call = .create → s.path ≠ none := by
      rw [hp]
      exact nofun
    rcases hstale : lockIsStale c s.content a.now with _ | _ | _
    · exact .quiet .raised (by rw [hp]; rfl) hcreate nofun nofun
    · exact .quiet .create (by rw [hp]; rfl) hcreate nofun nofun
    · exact .quiet .unlink (by rw [hp]; rfl) hcreate nofun fun _ => ⟨hp, hstale⟩
  case unlink => exact .remove hp
  case create =>
    by_cases hpath : s.path = none
    · simp only [hpath, Option.isSome_none, Bool.false_eq_true, if_false]
      exact .create hp hpath
    · simp only [Option.isSome_iff_ne_none.mpr hpath, if_true]
      exact .quiet _ (by rw [hp]; rfl) (fun _ => hpath) nofun nofun
  case write => exact .write file acquiredAt hp
  -- A call that has ended stays where it is.
  case returned =>
    have hself : s.goto a.call (.returned acquired) = s := by
      unfold State.goto
      rw [← hp, Function.update_eq_self]
    have hquiet : Change c s a (s.goto a.call (.returned acquired)) :=
      .quiet _ (by rw [hp]) (by rw [hp]; exact nofun) nofun nofun
    rwa [hself] at hquiet
  case raised =>
    have hself : s.goto a.call .raised = s := by
      unfold State.goto
      rw [← hp, Function.update_eq_self]
    have hquiet : Change c s a (s.goto a.call .raised) :=
      .quiet _ (by rw [hp]) (by rw [hp]; exact nofun) nofun nofun
    rwa [hself] at hquiet

theorem lockFile_write (s : State) (file : Nat) (b : Bytes) (call : Nat) (q : Point) :
    ({ s with files := s.files.modify file fun f => { f with content := b } }.goto call q).lockFile =
      s.lockFile.map fun f => if s.path = some file then { f with content := b } else f := by
  rw [lockFile_goto]
  unfold State.lockFile
  rcases s.path with _ | i
  · rfl
  · show (s.files.modify file _)[i]? = s.files[i]?.map _
    rw [List.getElem?_modify]
    simp only [Option.some.injEq, eq_comm (a := i)]
    rfl

theorem lockFile_create (s : State) (f : LockFile) (call : Nat) (q : Point) :
    ({ s with path := some s.files.length, files := s.files ++ [f] }.goto call q).lockFile =
      some f := by
  rw [lockFile_goto]
  show (s.files ++ [f])[s.files.length]? = some f
  rw [List.getElem?_concat_length]

/-! ### Safety -/

/-- Whoever has created a lock file still has it at the lock path. -/
def Inv (s : State) : Prop :=
  ∀ p, (s.point p).held = true → ∃ f ∈ s.lockFile, f.creator = some p

theorem Inv.atMostOne (h : Inv s) : AtMostOne s := by
  intro p q hp hq
  obtain ⟨f, hf, hfp⟩ := h p (by rw [hp]; rfl)
  obtain ⟨g, hg, hgq⟩ := h q (by rw [hq]; rfl)
  obtain rfl := Option.mem_unique hf hg
  exact Option.some.inj (hfp.symm.trans hgq)

theorem inv_initial (content : Option Bytes) : Inv (initial content) :=
  fun _ h => nomatch h

theorem inv_step (hs : Inv s) (hok : Sparing s a) (hstep : Change c s a s') : Inv s' := by
  rcases hstep with ⟨q, hheld, -, -, -⟩ | h | ⟨h, hpath⟩ | ⟨file, acquiredAt, h⟩
  · intro p hp
    refine hs p ?_
    rw [point_goto] at hp
    split_ifs at hp with heq
    · rw [heq, ← hheld]
      exact hp
    · exact hp
  · intro p hp
    rw [point_goto] at hp
    split_ifs at hp with heq
    · exact nomatch hp
    · -- Nobody else has created the file that is removed.
      obtain ⟨f, hf, hcreator⟩ := hs p hp
      rw [hok h f hf] at hcreator
      exact nomatch hcreator
  · intro p hp
    rw [point_goto] at hp
    split_ifs at hp with heq
    · exact ⟨_, lockFile_create s _ _ _, by rw [heq]⟩
    · obtain ⟨f, hf, -⟩ := hs p hp
      unfold State.lockFile at hf
      rw [hpath] at hf
      exact nomatch hf
  · intro p hp
    have hp' : (s.point p).held = true := by
      rw [point_goto] at hp
      split_ifs at hp with heq
      · rw [heq, h]
        rfl
      · exact hp
    obtain ⟨f, hf, hcreator⟩ := hs p hp'
    refine ⟨if s.path = some file then { f with content := lockPayload c acquiredAt } else f,
      ?_, ?_⟩
    · rw [lockFile_write]
      exact Option.mem_map_of_mem _ hf
    · split_ifs <;> exact hcreator

/-! ### Removed locks -/

/-- The creator of the lock file has created one, as far as it is known. -/
def Backed (s : State) : Prop :=
  ∀ f ∈ s.lockFile, ∀ p, f.creator = some p → (s.point p).held = true

theorem backed_initial (content : Option Bytes) : Backed (initial content) := by
  intro f hf p hcreator
  cases content with
  | none => exact nomatch hf
  | some b =>
    obtain rfl := Option.some.inj hf
    exact nomatch hcreator

theorem held_step {p : Nat} (hp : (s.point p).held = true) (hstep : Change c s a s') :
    (s'.point p).held = true := by
  rcases hstep with ⟨q, hheld, -, -, -⟩ | h | ⟨h, hpath⟩ | ⟨file, acquiredAt, h⟩
  · rw [point_goto]
    split_ifs with heq
    · rw [hheld, ← heq, hp]
    · exact hp
  · rw [point_goto]
    split_ifs with heq
    · rw [heq, h] at hp
      exact nomatch hp
    · exact hp
  · rw [point_goto]
    split_ifs with heq
    · rfl
    · exact hp
  · rw [point_goto]
    split_ifs with heq
    · rfl
    · exact hp

theorem backed_step (hs : Backed s) (hstep : Change c s a s') : Backed s' := by
  have hkeep : ∀ {p}, (s.point p).held = true → (s'.point p).held = true :=
    fun hp => held_step hp hstep
  rcases hstep with ⟨q, hheld, -, -, -⟩ | h | ⟨h, hpath⟩ | ⟨file, acquiredAt, h⟩
  · intro f hf p hcreator
    exact hkeep (hs f hf p hcreator)
  · exact fun f hf => nomatch hf
  · intro f hf p hcreator
    rw [lockFile_create] at hf
    obtain rfl := Option.some.inj hf
    obtain rfl := Option.some.inj hcreator
    rw [point_goto, if_pos rfl]
    rfl
  · intro f hf p hcreator
    rw [lockFile_write] at hf
    obtain ⟨g, hg, rfl⟩ := Option.mem_map.mp hf
    refine hkeep (hs g hg p ?_)
    rw [← hcreator]
    split_ifs <;> rfl

/-- Two calls have created lock files, or one has and another one is about to do so, with no lock
file in its way. -/
def Doubled (s : State) : Prop :=
  ∃ p q, p ≠ q ∧ (s.point p).held = true ∧
    ((s.point q).held = true ∨ s.point q = .create ∧ s.path = none)

theorem doubled_step (hs : Doubled s) (hstep : Change c s a s') : Doubled s' := by
  obtain ⟨p, q, hne, hp, hq | ⟨hq, hpath⟩⟩ := hs
  · exact ⟨p, q, hne, held_step hp hstep, .inl (held_step hq hstep)⟩
  · have hp' := held_step hp hstep
    rcases hstep with ⟨r, hheld, hcreate, -, -⟩ | h | ⟨h, -⟩ | ⟨file, acquiredAt, h⟩
    · refine ⟨p, q, hne, hp', .inr ⟨?_, hpath⟩⟩
      rw [point_goto, if_neg, hq]
      rintro rfl
      exact hcreate hq hpath
    · refine ⟨p, q, hne, hp', .inr ⟨?_, rfl⟩⟩
      rw [point_goto]
      split_ifs
      · rfl
      · exact hq
    · -- Whoever creates the file now is not the one that has created one.
      refine ⟨p, a.call, ?_, hp', .inl ?_⟩
      · rintro rfl
        rw [h] at hp
        exact nomatch hp
      · rw [point_goto, if_pos rfl]
        rfl
    · refine ⟨p, q, hne, hp', .inr ⟨?_, hpath⟩⟩
      rw [point_goto, if_neg, hq]
      rintro rfl
      rw [h] at hq
      exact nomatch hq

theorem doubled_run (hs : Doubled s) (as : List Action) :
    Doubled (run (acquireMutationLock c) s as) := by
  induction as generalizing s with
  | nil => exact hs
  | cons a as ih => exact ih (doubled_step hs (change c s a))

theorem doubled_of_not_sparing (hs : Backed s) (h : ¬ Sparing s a) :
    Doubled (acquireMutationLock c s a) := by
  unfold Sparing at h
  push Not at h
  obtain ⟨hunlink, f, hf, hcreator⟩ := h
  obtain ⟨p, hp⟩ := Option.ne_none_iff_exists'.mp hcreator
  have hheld := hs f hf p hp
  have hne : p ≠ a.call := by
    rintro rfl
    rw [hunlink] at hheld
    exact nomatch hheld
  have hstep : acquireMutationLock c s a = { s with path := none }.goto a.call .create := by
    unfold acquireMutationLock
    rw [hunlink]
  rw [hstep]
  refine ⟨p, a.call, hne, ?_, .inr ⟨?_, rfl⟩⟩
  · rw [point_goto, if_neg hne]
    exact hheld
  · rw [point_goto, if_pos rfl]

/-- When all calls have ended, two of them have acquired the lock. -/
theorem Doubled.not_atMostOne (h : Doubled s) (hf : Finished s) : ¬ AtMostOne s := by
  have hacquired : ∀ p, (s.point p).held = true → s.point p = .returned true := by
    intro p hp
    rcases hf p with heq | ⟨acquired, heq⟩ | heq
    · rw [heq] at hp
      exact nomatch hp
    · rw [heq] at hp ⊢
      exact congrArg Point.returned hp
    · rw [heq] at hp
      exact nomatch hp
  intro hone
  obtain ⟨p, q, hne, hp, hq | ⟨hq, -⟩⟩ := h
  · exact hne (hone p q (hacquired p hp) (hacquired q hq))
  · rcases hf q with heq | ⟨acquired, heq⟩ | heq <;> exact nomatch hq.symm.trans heq

theorem meets_sparing_of_atMostOne (hs : Backed s)
    (hf : Finished (run (acquireMutationLock c) s as))
    (hone : AtMostOne (run (acquireMutationLock c) s as)) :
    Meets (acquireMutationLock c) Sparing s as := by
  induction as generalizing s with
  | nil => trivial
  | cons a as ih =>
    by_cases h : Sparing s a
    · exact ⟨h, ih (backed_step hs (change c s a)) hf hone⟩
    · exact absurd hone ((doubled_run (doubled_of_not_sparing hs h) as).not_atMostOne hf)

/-- In a run in which nobody removes a lock file that a call has created, at most one call has
acquired the lock at any time; and only such runs end, when all calls have ended, with one. -/
theorem atMostOne_iff (c : Setting P) (content : Option Bytes) (as : List Action) :
    (Meets (acquireMutationLock c) Sparing (initial content) as →
      Always (acquireMutationLock c) AtMostOne (initial content) as) ∧
    (Finished (run (acquireMutationLock c) (initial content) as) →
      AtMostOne (run (acquireMutationLock c) (initial content) as) →
      Meets (acquireMutationLock c) Sparing (initial content) as) := by
  constructor
  · intro h
    have hinv := always_of_step (fun s a hs hok => inv_step hs hok (change c s a))
      (inv_initial content) h
    exact hinv.imp fun s => Inv.atMostOne
  · exact meets_sparing_of_atMostOne (backed_initial content)

/-! ### Locks that are taken for stale -/

def sortedPayload (c : Setting P) (acquiredAt : Int) : P.Obj :=
  .dict [(.str acquiredAtKey, .int acquiredAt), (.str intentIdKey, .str c.intentId)]

theorem readJsonFile_lockPayload (c : Setting P) (acquiredAt : Int) :
    readJsonFile P (some (lockPayload c acquiredAt)) =
      image P ((sortedPayload c acquiredAt).mapStr readAscii) := by
  obtain ⟨b, hb⟩ := exists_encode_dumpsAscii P .compact (sortedPayload c acquiredAt)
  have hsorted : sortKeys P (.dict [(.str intentIdKey, .str c.intentId),
      (.str acquiredAtKey, .int acquiredAt)]) = some (sortedPayload c acquiredAt) := rfl
  have hdocument : dumpsSortedAscii P .compact (.dict [(.str intentIdKey, .str c.intentId),
      (.str acquiredAtKey, .int acquiredAt)]) =
        some (dumpsAscii P .compact (sortedPayload c acquiredAt)) := by
    rw [dumpsSortedAscii, dumpsSorted, hsorted, Option.map_some, Option.map_some, dumpsAscii]
  have hpayload : lockPayload c acquiredAt = b := by
    simp only [lockPayload, hdocument, Option.bind_some, hb, Option.getD_some]
  have hread : readText b = .ok (dumpsAscii P .compact (sortedPayload c acquiredAt)) := by
    refine readText_of_encode hb fun x hx => ?_
    have hle := (printable_of_mem_dumpsAscii P hx).1
    unfold cr
    omega
  simp only [readJsonFile, hpayload, Option.bind_some, hread, Except.toOption, loads_dumpsAscii,
    Option.getD_some]

theorem lockIsStale_lockPayload {now acquiredAt : Int} (h : now - acquiredAt ≤ c.ttlSeconds) :
    lockIsStale c (some (lockPayload c acquiredAt)) now = some false := by
  have hkeys : acquiredAtKey ≠ intentIdKey := by decide
  have hacquired : readAscii acquiredAtKey = acquiredAtKey :=
    readAscii_of_ascii (by decide)
  have hintent : readAscii intentIdKey = intentIdKey :=
    readAscii_of_ascii (by decide)
  have himage : image P ((sortedPayload c acquiredAt).mapStr readAscii) =
      .dict [(.str acquiredAtKey, .int acquiredAt),
        (.str intentIdKey, .str (readAscii c.intentId))] := by
    have hmap : (sortedPayload c acquiredAt).mapStr readAscii =
        .dict [(.str acquiredAtKey, .int acquiredAt),
          (.str intentIdKey, .str (readAscii c.intentId))] := by
      simp only [sortedPayload, Value.mapStr, mapStrMembers, Key.mapStr, hacquired, hintent]
    rw [hmap, image_dict_of_isString P (by simp [Key.isString]) (by simp [hkeys])]
    rfl
  unfold lockIsStale
  rw [readJsonFile_lockPayload, himage]
  simp only [get_cons_self, Option.getD_some, toInt, Option.map_some]
  rw [decide_eq_false (not_lt.mpr h)]

/-- No lock file appears while a call is about to remove one, and nobody reads it a second time
between its creation and its writing. -/
def Timely (s : State) (a : Action) : Prop :=
  (s.point a.call = .create → s.path = none → ∀ p, s.point p ≠ .unlink) ∧
    (s.point a.call = .secondRead → ∀ f ∈ s.lockFile, f.creator = none ∨ f.content ≠ [])

/-- The lock file of a call is empty or was written within the window, and who is about to remove
the lock file has found that of no call. -/
structure Fresh (c : Setting P) (opened : Int) (s : State) : Prop where
  content : ∀ f ∈ s.lockFile, f.creator = none ∨ f.content = [] ∨
    ∃ t, opened ≤ t ∧ f.content = lockPayload c t
  write : ∀ p file t, s.point p = .write file t → opened ≤ t
  unlink : ∀ p, s.point p = .unlink → ∀ f ∈ s.lockFile, f.creator = none

theorem fresh_step {opened : Int} (hs : Fresh c opened s) (hok : Timely s a)
    (hlow : opened ≤ a.now) (hhigh : a.now ≤ opened + c.ttlSeconds) (hstep : Change c s a s') :
    Fresh c opened s' := by
  rcases hstep with ⟨q, hheld, -, hwrite, hunlink⟩ | h | ⟨h, hpath⟩ | ⟨file, acquiredAt, h⟩
  · refine ⟨hs.content, fun p file t hp => ?_, fun p hp => ?_⟩
    · rw [point_goto] at hp
      split_ifs at hp with heq
      · exact absurd hp (hwrite file t)
      · exact hs.write p file t hp
    · rw [point_goto] at hp
      split_ifs at hp with heq
      · -- The lock file that the call has read is not one that a call has written.
        obtain ⟨hread, hstale⟩ := hunlink hp
        intro f hf
        rcases hok.2 hread f hf with hnone | hne
        · exact hnone
        · rcases hs.content f hf with hnone | hempty | ⟨t, ht, hwritten⟩
          · exact hnone
          · exact absurd hempty hne
          · have hcontent : s.content = some (lockPayload c t) := by
              rw [← hwritten]
              exact congrArg (Option.map LockFile.content) hf
            rw [hcontent, lockIsStale_lockPayload (by omega)] at hstale
            exact nomatch hstale
      · exact hs.unlink p hp
  · refine ⟨nofun, fun p file t hp => ?_, fun _ _ => nofun⟩
    rw [point_goto] at hp
    split_ifs at hp
    exact hs.write p file t hp
  · refine ⟨fun f hf => ?_, fun p file t hp => ?_, fun p hp => ?_⟩
    · rw [lockFile_create] at hf
      obtain rfl := Option.some.inj hf
      exact .inr (.inl rfl)
    · rw [point_goto] at hp
      split_ifs at hp
      · obtain ⟨rfl, rfl⟩ := Point.write.inj hp
        exact hlow
      · exact hs.write p file t hp
    · rw [point_goto] at hp
      split_ifs at hp
      exact absurd hp (hok.1 h hpath p)
  · refine ⟨fun f hf => ?_, fun p file t hp => ?_, fun p hp f hf => ?_⟩
    · rw [lockFile_write] at hf
      obtain ⟨g, hg, rfl⟩ := Option.mem_map.mp hf
      split_ifs
      · exact .inr (.inr ⟨acquiredAt, hs.write _ _ _ h, rfl⟩)
      · exact hs.content g hg
    · rw [point_goto] at hp
      split_ifs at hp
      exact hs.write p _ t hp
    · rw [point_goto] at hp
      split_ifs at hp
      rw [lockFile_write] at hf
      obtain ⟨g, hg, rfl⟩ := Option.mem_map.mp hf
      have hnone := hs.unlink p hp g hg
      split_ifs <;> exact hnone

/-- Within one lifetime of a lock, a run whose steps are timely removes no lock file of a call, so
that at most one call acquires the lock. -/
theorem meets_sparing_of_timely {opened : Int} (hs : Fresh c opened s)
    (hwindow : InWindow c opened as) (h : Meets (acquireMutationLock c) Timely s as) :
    Meets (acquireMutationLock c) Sparing s as := by
  induction as generalizing s with
  | nil => trivial
  | cons a as ih =>
    obtain ⟨⟨hlow, hhigh⟩, hrest⟩ := List.forall_mem_cons.mp hwindow
    refine ⟨fun hp => hs.unlink a.call hp, ih ?_ hrest h.2⟩
    exact fresh_step hs h.1 hlow hhigh (change c s a)

/-! ### A lock that is taken before it is written -/

def oneIntent : Setting reference where
  intentId := str "i"
  ttlSeconds := 120
  intOfFloat _ := none
  intOfStr _ := none

/-- The second call comes while the lock file of the first one is still empty. -/
def overtaken : List Action :=
  [⟨0, 100⟩, ⟨0, 100⟩, ⟨0, 100⟩, ⟨1, 100⟩, ⟨1, 100⟩, ⟨1, 100⟩, ⟨1, 100⟩, ⟨1, 100⟩, ⟨1, 100⟩, ⟨1, 100⟩,
    ⟨0, 100⟩]

/-- In general two calls can acquire one lock. -/
theorem not_atMostOne : ¬ ∀ (c : Setting reference) (opened : Int) (content : Option Bytes)
    (as : List Action), InWindow c opened as →
      AtMostOne (run (acquireMutationLock c) (initial content) as) := by
  intro h
  have hwindow : InWindow oneIntent 100 overtaken := by
    unfold InWindow overtaken oneIntent
    simp
  have hone := h oneIntent 100 none overtaken hwindow
  exact absurd (hone 0 1 (by decide +kernel) (by decide +kernel)) (by decide)

/-! ### Calls that come in time -/

theorem fresh_initial (opened : Int) (content : Option Bytes) :
    Fresh c opened (initial content) := by
  refine ⟨fun f hf => ?_, fun _ _ _ hp => (by cases hp), fun _ hp => (by cases hp)⟩
  cases content with
  | none => cases hf
  | some b =>
    obtain rfl : LockFile.mk none b = f := Option.some.inj hf
    exact .inl rfl

/-- Whichever lock file there was, at most one call has acquired the lock at any time of such a
run. -/
theorem atMostOne_of_timely (opened : Int) (content : Option Bytes) (hwindow : InWindow c opened as)
    (h : Meets (acquireMutationLock c) Timely (initial content) as) :
    Always (acquireMutationLock c) AtMostOne (initial content) as := by
  have hsparing := meets_sparing_of_timely (fresh_initial opened content) hwindow h
  have hinv := always_of_step (fun s a hs hok => inv_step hs hok (change c s a))
    (inv_initial content) hsparing
  exact hinv.imp fun s => Inv.atMostOne

theorem timely_of_point (hcreate : s.point a.call ≠ .create)
    (hread : s.point a.call ≠ .secondRead) : Timely s a :=
  ⟨fun h => absurd h hcreate, fun h => absurd h hread⟩

/-- The second call comes when the first one has acquired the lock. -/
theorem atMostOne_in_turn :
    Always (acquireMutationLock oneIntent) AtMostOne (initial none)
      [⟨0, 100⟩, ⟨0, 100⟩, ⟨0, 100⟩, ⟨0, 100⟩, ⟨1, 101⟩, ⟨1, 101⟩] := by
  have hcreate : ∀ p, ((initial none).goto 0 .secondExists |>.goto 0 .create).point p ≠ .unlink := by
    intro p
    rw [point_goto, point_goto]
    split_ifs
    · decide
    · exact fun h => by cases h
  refine atMostOne_of_timely 100 none (by unfold InWindow oneIntent; simp) ?_
  refine ⟨timely_of_point ?_ ?_, timely_of_point ?_ ?_, ⟨fun _ _ => hcreate, ?_⟩,
    timely_of_point ?_ ?_, timely_of_point ?_ ?_, timely_of_point ?_ ?_, trivial⟩
  all_goals decide +kernel

end Adaad.MutationLock
