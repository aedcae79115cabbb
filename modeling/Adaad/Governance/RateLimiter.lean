import Adaad.Py.Assoc
import Adaad.Py.Value
import Adaad.Run
import Mathlib.Algebra.Order.Field.Basic
import Mathlib.Tactic.Linarith

/-!
# Limiting the rate of proposals

`runtime/governance/rate_limiter.py`: a limiter keeps, for each source, the times of the calls that
it allowed and that are still within the window of the latest call.

Times are exact numbers here.
-/

namespace Adaad.RateLimiter

open Py Run

variable {K : Type}

variable (K) in
/-- What Python makes of a text, where `none` is a `ValueError`, and `round(x, 1)`. -/
structure Numerals where
  int : Str → Option Int
  float : Str → Option K
  round1 : K → K

/-- `ADAAD_PROPOSAL_RATE_LIMIT` and `ADAAD_PROPOSAL_RATE_WINDOW_SECONDS`. -/
structure Environ where
  rateLimit : Option Str
  rateWindowSeconds : Option Str

/-- `_DEFAULT_RATE_LIMIT` -/
def defaultRateLimit : Int := 10

/-- `_configured_limit` -/
def configuredLimit (n : Numerals K) (env : Environ) : Int :=
  match env.rateLimit with
  | none => max 1 defaultRateLimit
  | some text =>
    match n.int text with
    | some val => max 1 val
    | none => defaultRateLimit

variable (K) in
structure Bucket where
  timestamps : List K

variable (K) in
/-- What `check` says besides its answer; `retryAfterSeconds` is there in a refusal only. -/
structure Info where
  sourceKey : Str
  countInWindow : Nat
  limit : Int
  windowSeconds : K
  retryAfterSeconds : Option K

variable (K) in
structure ProposalRateLimiter where
  buckets : List (Str × Bucket K)

/-- `self._buckets.setdefault(source_key, _Bucket())`, without the change to the `dict`. -/
def ProposalRateLimiter.bucket (r : ProposalRateLimiter K) (sourceKey : Str) : Bucket K :=
  (r.buckets.lookup sourceKey).getD ⟨[]⟩

variable [Field K] [LinearOrder K]

variable (K) in
/-- `_DEFAULT_WINDOW_SECONDS` -/
def defaultWindowSeconds : K := 60

/-- `_configured_window` -/
def configuredWindow (n : Numerals K) (env : Environ) : K :=
  match env.rateWindowSeconds with
  | none => max 1 (defaultWindowSeconds K)
  | some text =>
    match n.float text with
    | some val => max 1 val
    | none => defaultWindowSeconds K

variable (n : Numerals K) (env : Environ)

/-- The timestamps that are left when those outside the window are evicted. -/
def ProposalRateLimiter.kept (r : ProposalRateLimiter K) (sourceKey : Str) (now : K) : List K :=
  (r.bucket sourceKey).timestamps.filter fun t => now - configuredWindow n env < t

def ProposalRateLimiter.check (r : ProposalRateLimiter K) (sourceKey : Str) (now : K) :
    (Bool × Info K) × ProposalRateLimiter K :=
  let limit := configuredLimit n env
  let window := configuredWindow n env
  let kept := r.kept n env sourceKey now
  if limit ≤ kept.length then
    ((false, {
      sourceKey := sourceKey
      countInWindow := kept.length
      limit := limit
      windowSeconds := window
      retryAfterSeconds := kept.head?.map fun t => n.round1 (window - (now - t)) }),
    ⟨Assoc.set r.buckets sourceKey ⟨kept⟩⟩)
  else
    ((true, {
      sourceKey := sourceKey
      countInWindow := kept.length + 1
      limit := limit
      windowSeconds := window
      retryAfterSeconds := none }),
    ⟨Assoc.set r.buckets sourceKey ⟨kept ++ [now]⟩⟩)

/-! ### Calls in a row -/

variable (K) in
/-- A call of `check` at a time of the monotonic clock. -/
structure Call where
  sourceKey : Str
  now : K

variable (K) in
/-- A limiter with the answers it has given. -/
structure Session where
  limiter : ProposalRateLimiter K
  answers : List (Call K × Bool)

variable (K) in
def Session.new : Session K :=
  ⟨⟨[]⟩, []⟩

def step (s : Session K) (c : Call K) : Session K :=
  let r := s.limiter.check n env c.sourceKey c.now
  ⟨r.2, s.answers ++ [(c, r.1.1)]⟩

omit [Field K] [LinearOrder K] in
/-- The times at which calls of the source were allowed. -/
def allowedTimes (answers : List (Call K × Bool)) (sourceKey : Str) : List K :=
  (answers.filter fun a => a.1.sourceKey = sourceKey ∧ a.2 = true).map fun a => a.1.now

/-- No interval as long as the window, open at one of its ends, has more than `limit` allowed calls
of a source. -/
def WithinLimit (s : Session K) : Prop :=
  ∀ sourceKey x,
    ((allowedTimes s.answers sourceKey).countP fun t =>
      x ≤ t ∧ t < x + configuredWindow n env) ≤ configuredLimit n env ∧
    ((allowedTimes s.answers sourceKey).countP fun t =>
      x < t ∧ t ≤ x + configuredWindow n env) ≤ configuredLimit n env

/-- Before each call that was refused, at least `limit` calls of its source had been allowed within
the window that ends with it. -/
def RefusedAtLimit (s : Session K) : Prop :=
  ∀ before c after, s.answers = before ++ (c, false) :: after →
    configuredLimit n env ≤ (allowedTimes before c.sourceKey).countP fun t =>
      c.now - configuredWindow n env < t ∧ t ≤ c.now

/-! ### The answers of a session

A bucket has the allowed times that are later than any bound that every call has already moved past:
what was evicted lies before it.
-/

section Answers

omit [Field K] [LinearOrder K] in
theorem allowedTimes_concat (answers : List (Call K × Bool)) (c : Call K) (allowed : Bool)
    (sourceKey : Str) :
    allowedTimes (answers ++ [(c, allowed)]) sourceKey =
      allowedTimes answers sourceKey ++
        if c.sourceKey = sourceKey ∧ allowed = true then [c.now] else [] := by
  unfold allowedTimes
  rw [List.filter_append, List.map_append, List.filter_singleton]
  by_cases h : c.sourceKey = sourceKey ∧ allowed = true
  · simp [h]
  · simp [h]

omit [Field K] [LinearOrder K] in
theorem exists_of_mem_allowedTimes {answers : List (Call K × Bool)} {sourceKey : Str} {t : K}
    (h : t ∈ allowedTimes answers sourceKey) : ∃ a ∈ answers, a.1.now = t := by
  obtain ⟨a, ha, rfl⟩ := List.mem_map.mp h
  exact ⟨a, (List.mem_filter.mp ha).1, rfl⟩

omit [Field K] [LinearOrder K] in
theorem bucket_set (r : ProposalRateLimiter K) (k k' : Str) (b : Bucket K) :
    (ProposalRateLimiter.mk (Assoc.set r.buckets k b)).bucket k' =
      if k' = k then b else r.bucket k' := by
  unfold ProposalRateLimiter.bucket
  rw [Assoc.lookup_set]
  split_ifs <;> rfl

variable {n env} {s : Session K} {c : Call K}

variable (n env) in
theorem step_eq (s : Session K) (c : Call K) :
    (configuredLimit n env ≤ (s.limiter.kept n env c.sourceKey c.now).length ∧
      step n env s c = ⟨⟨Assoc.set s.limiter.buckets c.sourceKey
        ⟨s.limiter.kept n env c.sourceKey c.now⟩⟩, s.answers ++ [(c, false)]⟩) ∨
    (((s.limiter.kept n env c.sourceKey c.now).length : Int) < configuredLimit n env ∧
      step n env s c = ⟨⟨Assoc.set s.limiter.buckets c.sourceKey
        ⟨s.limiter.kept n env c.sourceKey c.now ++ [c.now]⟩⟩, s.answers ++ [(c, true)]⟩) := by
  by_cases h : configuredLimit n env ≤ (s.limiter.kept n env c.sourceKey c.now).length
  · refine .inl ⟨h, ?_⟩
    unfold step ProposalRateLimiter.check
    dsimp only
    rw [if_pos h]
  · refine .inr ⟨Int.not_le.mp h, ?_⟩
    unfold step ProposalRateLimiter.check
    dsimp only
    rw [if_neg h]

variable (n env) in
/-- The buckets agree with the answers as far back as a later call can look. -/
def Tracked (s : Session K) : Prop :=
  ∀ sourceKey cutoff, (∀ a ∈ s.answers, a.1.now - configuredWindow n env ≤ cutoff) →
    ((s.limiter.bucket sourceKey).timestamps.filter fun t => cutoff < t) =
      (allowedTimes s.answers sourceKey).filter fun t => cutoff < t

variable (n env) in
structure Kept (s : Session K) : Prop where
  tracked : Tracked n env s
  withinLimit : WithinLimit n env s
  refusedAtLimit : RefusedAtLimit n env s

/-- The clock has not gone back before the call. -/
def InOrder (s : Session K) (c : Call K) : Prop :=
  ∀ a ∈ s.answers, a.1.now ≤ c.now

variable [IsStrictOrderedRing K]

theorem kept_eq (h : Tracked n env s) (hc : InOrder s c) (sourceKey : Str) :
    s.limiter.kept n env sourceKey c.now =
      (allowedTimes s.answers sourceKey).filter fun t => c.now - configuredWindow n env < t :=
  h sourceKey _ fun a ha => sub_le_sub_right (hc a ha) _

theorem filter_kept (h : Tracked n env s) (hc : InOrder s c) {cutoff : K}
    (hcut : c.now - configuredWindow n env ≤ cutoff) :
    ((s.limiter.kept n env c.sourceKey c.now).filter fun t => cutoff < t) =
      (allowedTimes s.answers c.sourceKey).filter fun t => cutoff < t := by
  rw [kept_eq h hc, List.filter_filter]
  refine List.filter_congr fun t _ => ?_
  rw [Bool.and_eq_left_iff_imp]
  intro ht
  exact decide_eq_true (lt_of_le_of_lt hcut (of_decide_eq_true ht))

theorem Tracked.step (h : Tracked n env s) (hc : InOrder s c) : Tracked n env (step n env s c) := by
  have hanswer : ∀ (b : Bucket K) (allowed : Bool),
      (∀ cutoff, c.now - configuredWindow n env ≤ cutoff →
        (b.timestamps.filter fun t => cutoff < t) =
          (allowedTimes (s.answers ++ [(c, allowed)]) c.sourceKey).filter fun t => cutoff < t) →
      Tracked n env ⟨⟨Assoc.set s.limiter.buckets c.sourceKey b⟩,
        s.answers ++ [(c, allowed)]⟩ := by
    intro b allowed hb sourceKey cutoff hcut
    dsimp only at hcut ⊢
    rw [bucket_set]
    by_cases hkey : sourceKey = c.sourceKey
    · rw [if_pos hkey, hkey]
      exact hb cutoff (hcut (c, allowed) (by simp))
    · rw [if_neg hkey, allowedTimes_concat, if_neg fun hand => hkey hand.1.symm, List.append_nil]
      exact h sourceKey cutoff fun a ha => hcut a (by simp [ha])
  rcases step_eq n env s c with ⟨-, heq⟩ | ⟨-, heq⟩
  · rw [heq]
    refine hanswer _ false fun cutoff hcut => ?_
    rw [allowedTimes_concat, if_neg (by simp), List.append_nil]
    exact filter_kept h hc hcut
  · rw [heq]
    refine hanswer _ true fun cutoff hcut => ?_
    rw [allowedTimes_concat, if_pos ⟨rfl, rfl⟩, List.filter_append, List.filter_append,
      filter_kept h hc hcut]

/-- An interval that has the time of a call, and no time from outside the window of the call, has
fewer than `limit` calls when the limit allows one more. -/
theorem countP_lt (h : Tracked n env s) (hc : InOrder s c)
    (hlt : ((s.limiter.kept n env c.sourceKey c.now).length : Int) < configuredLimit n env)
    {p : K → Bool} (hp : ∀ t, p t = true → c.now - configuredWindow n env < t) :
    ((allowedTimes s.answers c.sourceKey).countP p : Int) + 1 ≤ configuredLimit n env := by
  rw [kept_eq h hc, ← List.countP_eq_length_filter] at hlt
  have hmono : (allowedTimes s.answers c.sourceKey).countP p ≤
      (allowedTimes s.answers c.sourceKey).countP fun t => c.now - configuredWindow n env < t :=
    List.countP_mono_left fun t _ ht => decide_eq_true (hp t ht)
  omega

theorem WithinLimit.step (h : WithinLimit n env s) (ht : Tracked n env s) (hc : InOrder s c) :
    WithinLimit n env (step n env s c) := by
  rcases step_eq n env s c with ⟨-, heq⟩ | ⟨hlt, heq⟩
  · rw [heq]
    intro sourceKey x
    dsimp only
    rw [allowedTimes_concat, if_neg (by simp), List.append_nil]
    exact h sourceKey x
  · rw [heq]
    -- The new time is in the interval or it is not; where it is, the interval is within the window.
    have hone : ∀ sourceKey (p : K → Bool),
        (p c.now = true → ∀ t, p t = true → c.now - configuredWindow n env < t) →
        ((allowedTimes s.answers sourceKey).countP p : Int) ≤ configuredLimit n env →
        ((allowedTimes (s.answers ++ [(c, true)]) sourceKey).countP p : Int) ≤
          configuredLimit n env := by
      intro sourceKey p hp hold
      rw [allowedTimes_concat]
      by_cases hkey : c.sourceKey = sourceKey
      · rw [if_pos ⟨hkey, rfl⟩, List.countP_append, List.countP_singleton]
        by_cases hnow : p c.now = true
        · rw [if_pos hnow, ← hkey]
          exact_mod_cast countP_lt ht hc hlt (hp hnow)
        · rw [if_neg hnow, Nat.add_zero]
          exact hold
      · rw [if_neg fun hand => hkey hand.1, List.append_nil]
        exact hold
    intro sourceKey x
    refine ⟨hone sourceKey _ (fun hnow t htt => ?_) (h sourceKey x).1,
      hone sourceKey _ (fun hnow t htt => ?_) (h sourceKey x).2⟩
    · have hx := of_decide_eq_true hnow
      have ht' := of_decide_eq_true htt
      linarith [hx.2, ht'.1]
    · have hx := of_decide_eq_true hnow
      have ht' := of_decide_eq_true htt
      linarith [hx.2, ht'.1]

theorem RefusedAtLimit.step (h : RefusedAtLimit n env s) (ht : Tracked n env s)
    (hc : InOrder s c) : RefusedAtLimit n env (step n env s c) := by
  intro before c' after heq
  rcases step_eq n env s c with ⟨hle, hstep⟩ | ⟨-, hstep⟩
  · rw [hstep] at heq
    dsimp only at heq
    rcases List.eq_nil_or_concat after with rfl | ⟨after, last, rfl⟩
    · obtain ⟨rfl, hlast⟩ := List.append_inj' heq rfl
      obtain ⟨rfl, -⟩ := Prod.mk.inj (List.singleton_inj.mp hlast)
      rw [kept_eq ht hc, ← List.countP_eq_length_filter] at hle
      refine hle.trans (Int.ofNat_le.mpr (List.countP_mono_left fun t htm hcut => ?_))
      obtain ⟨a, ha, rfl⟩ := exists_of_mem_allowedTimes htm
      exact decide_eq_true ⟨of_decide_eq_true hcut, hc a ha⟩
    · rw [List.concat_eq_append, ← List.cons_append, ← List.append_assoc] at heq
      exact h before c' after (List.append_inj' heq rfl).1
  · rw [hstep] at heq
    dsimp only at heq
    rcases List.eq_nil_or_concat after with rfl | ⟨after, last, rfl⟩
    · have hlast := List.singleton_inj.mp (List.append_inj' heq rfl).2
      exact absurd (Prod.mk.inj hlast).2 (by simp)
    · rw [List.concat_eq_append, ← List.cons_append, ← List.append_assoc] at heq
      exact h before c' after (List.append_inj' heq rfl).1

theorem Kept.step (h : Kept n env s) (hc : InOrder s c) : Kept n env (step n env s c) where
  tracked := h.tracked.step hc
  withinLimit := h.withinLimit.step h.tracked hc
  refusedAtLimit := h.refusedAtLimit.step h.tracked hc

omit [Field K] [LinearOrder K] [IsStrictOrderedRing K] in
variable (n env) in
theorem configuredLimit_pos : 1 ≤ configuredLimit n env := by
  unfold configuredLimit
  cases env.rateLimit with
  | none => exact le_max_left _ _
  | some text =>
    dsimp only
    cases n.int text with
    | none => decide
    | some val => exact le_max_left _ _

omit [IsStrictOrderedRing K] in
theorem Kept.new : Kept n env (Session.new K) where
  tracked _ _ _ := rfl
  withinLimit _ _ := by
    have hpos := configuredLimit_pos n env
    have hzero : (0 : Int) ≤ configuredLimit n env := by omega
    exact ⟨hzero, hzero⟩
  refusedAtLimit before c after heq := by
    have := congrArg List.length heq
    simp [Session.new] at this

omit [IsStrictOrderedRing K] in
variable (n env) in
theorem answers_step (s : Session K) (c : Call K) :
    ∃ allowed, (step n env s c).answers = s.answers ++ [(c, allowed)] :=
  ⟨_, rfl⟩

omit [IsStrictOrderedRing K] in
theorem meets_inOrder {cs : List (Call K)} (hs : ∀ a ∈ s.answers, ∀ c ∈ cs, a.1.now ≤ c.now)
    (h : (cs.map Call.now).Pairwise (· ≤ ·)) : Meets (step n env) InOrder s cs := by
  induction cs generalizing s with
  | nil => trivial
  | cons c cs ih =>
    rw [List.map_cons, List.pairwise_cons] at h
    refine ⟨fun a ha => hs a ha c (by simp), ih (fun a ha d hd => ?_) h.2⟩
    obtain ⟨allowed, hans⟩ := answers_step n env s c
    rw [hans] at ha
    rcases List.mem_append.mp ha with ha | ha
    · exact hs a ha d (by simp [hd])
    · rw [List.mem_singleton.mp ha]
      exact h.1 d.now (List.mem_map_of_mem hd)

end Answers

end Adaad.RateLimiter
