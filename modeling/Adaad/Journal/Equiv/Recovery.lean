import Adaad.Journal.Equiv.Run

/-!
# When the recovery hook is called

A scan from a remembered tail that does not fit calls the hook, and the call then falls back on the
full scan: a journal that is in order is handed to the hook all the same.  `handed_iff_spares` says
exactly when this does not happen.  It does not while the journal is changed by `append_tx` alone
(`handed_broken_of_run`).
-/

namespace Adaad.Journal.Recovery

open Py

variable {P : Platform}

/-! ### Without a hook -/

/-- The result of a call without a hook, as that of a call with one. -/
def lift {α : Type} (r : Except Fault α × World) : Except Stop α × Session :=
  (r.1.mapError .fault, ⟨r.2, []⟩)

theorem scanAndRemember_none {w : World} {f : File} (hf : w.disk.journal = some f) (o : Nat)
    (h : Str) : scanAndRemember P none ⟨w, []⟩ o h = lift
      (match Journal.scanChain P f.bytes o h with
      | .error e => (.error e, w)
      | .ok tail =>
        match writeVerifiedTailState P w tail.1 tail.2 with
        | .error e => (.error (.raised e), w)
        | .ok w => (.ok tail, w)) := by
  unfold scanAndRemember scanChain
  rw [hf]
  dsimp only
  rcases Journal.scanChain P f.bytes o h with (m | e) | tail
  · rfl
  · rfl
  · unfold remember
    dsimp only
    cases writeVerifiedTailState P w tail.1 tail.2 <;> rfl

theorem resumeVerifiedTail_none {w : World} {f : File} (hf : w.disk.journal = some f)
    (p : TailPoint) : resumeVerifiedTail P none ⟨w, []⟩ p =
      lift (Journal.resumeVerifiedTail P w f p) := by
  unfold resumeVerifiedTail Journal.resumeVerifiedTail
  rw [hf]
  dsimp only
  split_ifs
  · rfl
  · rfl
  · rfl
  · rw [scanAndRemember_none hf]
    rcases Journal.scanChain P f.bytes p.offset p.hash with e | ⟨h, o⟩
    · rfl
    · dsimp only
      cases writeVerifiedTailState P w h o <;> rfl

theorem resumeTails_none {f : File} (ps : List TailPoint) {w : World}
    (hf : w.disk.journal = some f) :
    resumeTails P none ⟨w, []⟩ ps = lift (Journal.resumeTails P f w ps) := by
  induction ps generalizing w with
  | nil => rfl
  | cons p ps ih =>
    have hfiles := sameFiles_resumeVerifiedTail (P := P) w f p
    rw [resumeTails, Journal.resumeTails, resumeVerifiedTail_none hf]
    rcases hr : Journal.resumeVerifiedTail P w f p with ⟨(m | e) | (_ | tail), w'⟩ <;>
      rw [hr] at hfiles
    · exact ih (w := { w' with cache := none }) (hfiles.1.trans hf)
    · rfl
    · exact ih (hfiles.1.trans hf)
    · rfl

/-- Without a hook the call is the one of the model that has none. -/
theorem validatedLastHash_none (created : Nat) (w : World) :
    validatedLastHash P none created w = lift (Journal.validatedLastHash P created w) := by
  unfold validatedLastHash Journal.validatedLastHash
  cases hensure : ensureJournal created w.disk with
  | error e => rfl
  | ok fd =>
    obtain ⟨f, d⟩ := fd
    have hf : d.journal = some f := (ensureJournal_spec hensure).1
    dsimp only
    cases readTailState P d with
    | error e => rfl
    | ok state =>
      have hj : ({ w with disk := d } : World).disk.journal = some f := hf
      have hfiles := sameFiles_resumeTails (P := P) f (tailPoints w.cache state)
        { w with disk := d }
      dsimp only
      rw [resumeTails_none _ hj]
      rcases hr : Journal.resumeTails P f { w with disk := d } (tailPoints w.cache state) with
        ⟨e | (_ | tail), w'⟩
      · rfl
      · rw [hr] at hfiles
        refine (scanAndRemember_none (hfiles.1.trans hj) 0 genesisHash).trans (congrArg lift ?_)
        unfold rescan
        rcases Journal.scanChain P f.bytes 0 genesisHash with e | ⟨h, o⟩
        · rfl
        · rfl
      · rfl

/-! ### With a hook -/

variable (P) in
/-- No journal that the hook was called for is in order. -/
def AllBroken (s : Session) : Prop :=
  ∀ b ∈ s.handed, ¬ FullScan P b

/-- The loop over the remembered tails goes on. -/
def Stop.caught : Stop → Bool
  | .fault (.integrity _) => true
  | _ => false

def errorAfter (hook : RecoveryHook) (w : World) (message : Str) : Stop :=
  ((hook w message).1).getD (.fault (.integrity message))

variable (P) in
/-- Each remembered tail that the call comes to fits the journal that is there then, if that is in
order: the scan from the tail does not end in an integrity error. -/
def Spares (hook : RecoveryHook) : World → List TailPoint → Prop
  | _, [] => True
  | w, p :: ps => ∀ f, w.disk.journal = some f →
    match attempt P f p with
    | .ok none => Spares hook w ps
    | .error (.integrity m) =>
      ¬ FullScan P f.bytes ∧ ((errorAfter hook w m).caught = true →
        Spares hook { (hook w m).2 with cache := none } ps)
    | _ => True

variable {hook : RecoveryHook} {s : Session} {f : File}

theorem allBroken_concat {w : World} {b : Bytes} :
    AllBroken P ⟨w, s.handed ++ [b]⟩ ↔ AllBroken P s ∧ ¬ FullScan P b := by
  unfold AllBroken
  simp only [List.mem_append, List.mem_singleton, or_imp, forall_and, forall_eq]

theorem scanAndRemember_error {o : Nat} {h m : Str} (hf : s.world.disk.journal = some f)
    (hscan : Journal.scanChain P f.bytes o h = .error (.integrity m)) :
    scanAndRemember P (some hook) s o h =
      (.error (errorAfter hook s.world m), ⟨(hook s.world m).2, s.handed ++ [f.bytes]⟩) := by
  unfold scanAndRemember scanChain
  rw [hf]
  dsimp only
  rw [hscan]
  rfl

theorem scanAndRemember_raised {o : Nat} {h : Str} {e : Exc} (hf : s.world.disk.journal = some f)
    (hscan : Journal.scanChain P f.bytes o h = .error (.raised e)) :
    scanAndRemember P (some hook) s o h = (.error (.fault (.raised e)), s) := by
  unfold scanAndRemember scanChain
  rw [hf]
  dsimp only
  rw [hscan]

theorem scanAndRemember_ok {o : Nat} {h : Str} {tail : Str × Nat}
    (hf : s.world.disk.journal = some f) (hscan : Journal.scanChain P f.bytes o h = .ok tail) :
    scanAndRemember P (some hook) s o h = remember P s tail := by
  unfold scanAndRemember scanChain
  rw [hf]
  dsimp only
  rw [hscan]

theorem handed_remember (s : Session) (tail : Str × Nat) :
    (remember P s tail).2.handed = s.handed := by
  unfold remember
  cases writeVerifiedTailState P s.world tail.1 tail.2 <;> rfl

theorem remember_fst (s : Session) (tail : Str × Nat) :
    (remember P s tail).1 =
      (((writeText (tailStateText P tail.1 tail.2)).mapError Fault.raised).map
        fun _ => tail).mapError .fault := by
  unfold remember writeVerifiedTailState writeTailState
  simp only [bind, Except.bind, pure, Except.pure]
  cases writeText (tailStateText P tail.1 tail.2) <;> rfl

theorem resumeVerifiedTail_cases (hook : RecoveryHook) (hf : s.world.disk.journal = some f)
    (p : TailPoint) :
    (attempt P f p = .ok none ∧ resumeVerifiedTail P (some hook) s p = (.ok none, s)) ∨
    (∃ tail, attempt P f p = .ok (some tail) ∧
      (resumeVerifiedTail P (some hook) s p).1 = .ok (some tail) ∧
      (resumeVerifiedTail P (some hook) s p).2.handed = s.handed) ∨
    (∃ e, attempt P f p = .error (.raised e) ∧
      (resumeVerifiedTail P (some hook) s p).1 = .error (.fault (.raised e)) ∧
      (resumeVerifiedTail P (some hook) s p).2.handed = s.handed) ∨
    ∃ m, attempt P f p = .error (.integrity m) ∧
      resumeVerifiedTail P (some hook) s p =
        (.error (errorAfter hook s.world m), ⟨(hook s.world m).2, s.handed ++ [f.bytes]⟩) := by
  unfold resumeVerifiedTail attempt
  rw [hf]
  dsimp only
  by_cases hlt : f.bytes.length < p.offset
  · rw [if_pos hlt, if_pos hlt]
    exact .inl ⟨rfl, rfl⟩
  rw [if_neg hlt, if_neg hlt]
  by_cases heq : f.bytes.length = p.offset
  · rw [if_pos heq, if_pos heq]
    by_cases hverified : p.verified = some (f.mtimeNs, contentDigest P f)
    · rw [if_pos hverified, if_pos hverified]
      exact .inr (.inl ⟨_, rfl, rfl, rfl⟩)
    · rw [if_neg hverified, if_neg hverified]
      exact .inl ⟨rfl, rfl⟩
  rw [if_neg heq, if_neg heq]
  rcases hscan : Journal.scanChain P f.bytes p.offset p.hash with (m | e) | tail
  · rw [scanAndRemember_error hf hscan]
    exact .inr (.inr (.inr ⟨m, rfl, rfl⟩))
  · rw [scanAndRemember_raised hf hscan]
    exact .inr (.inr (.inl ⟨e, rfl, rfl, rfl⟩))
  · rw [scanAndRemember_ok hf hscan, remember_fst, handed_remember]
    simp only [bind, Except.bind]
    cases writeText (tailStateText P tail.1 tail.2) with
    | error e => exact .inr (.inr (.inl ⟨e, rfl, rfl, trivial⟩))
    | ok b => exact .inr (.inl ⟨tail, rfl, rfl, trivial⟩)

theorem allBroken_rescan (hook : RecoveryHook) (s : Session) :
    AllBroken P (scanAndRemember P (some hook) s 0 genesisHash).2 ↔ AllBroken P s := by
  cases hf : s.world.disk.journal with
  | none =>
    unfold scanAndRemember scanChain
    rw [hf]
  | some f =>
    rcases hscan : Journal.scanChain P f.bytes 0 genesisHash with (m | e) | tail
    · rw [scanAndRemember_error hf hscan, allBroken_concat]
      refine and_iff_left ?_
      rintro ⟨tail, htail⟩
      rw [hscan] at htail
      cases htail
    · rw [scanAndRemember_raised hf hscan]
    · rw [scanAndRemember_ok hf hscan]
      unfold AllBroken
      rw [handed_remember]

variable (P) in
def fallBack (hook : RecoveryHook) :
    Except Stop (Option (Str × Nat)) × Session → Except Stop (Str × Nat) × Session
  | (.error e, s) => (.error e, s)
  | (.ok (some tail), s) => (.ok tail, s)
  | (.ok none, s) => scanAndRemember P (some hook) s 0 genesisHash

theorem resumeTails_error {p : TailPoint} {ps : List TailPoint} {e : Stop} {s' : Session}
    (h : resumeVerifiedTail P (some hook) s p = (.error e, s')) :
    resumeTails P (some hook) s (p :: ps) =
      if e.caught = true then
        resumeTails P (some hook) { s' with world := { s'.world with cache := none } } ps
      else (.error e, s') := by
  rw [resumeTails, h]
  rcases e with (m | e) | _ <;> rfl

theorem allBroken_fallBack_iff (hook : RecoveryHook) (ps : List TailPoint) (s : Session) :
    AllBroken P (fallBack P hook (resumeTails P (some hook) s ps)).2 ↔
      AllBroken P s ∧ Spares P hook s.world ps := by
  induction ps generalizing s with
  | nil =>
    rw [Spares, and_true]
    exact allBroken_rescan hook s
  | cons p ps ih =>
    cases hf : s.world.disk.journal with
    | none =>
      have hnone : resumeVerifiedTail P (some hook) s p = (.error .fileNotFoundError, s) := by
        unfold resumeVerifiedTail
        rw [hf]
      have hcaught : ¬ Stop.fileNotFoundError.caught = true := Bool.false_ne_true
      rw [resumeTails_error hnone, if_neg hcaught, Spares]
      refine (and_iff_left ?_).symm
      intro f hf'
      rw [hf] at hf'
      cases hf'
    | some f =>
      have hspares : Spares P hook s.world (p :: ps) ↔
          match attempt P f p with
          | .ok none => Spares P hook s.world ps
          | .error (.integrity m) =>
            ¬ FullScan P f.bytes ∧ ((errorAfter hook s.world m).caught = true →
              Spares P hook { (hook s.world m).2 with cache := none } ps)
          | _ => True := by
        rw [Spares, hf]
        simp only [Option.some.injEq, forall_eq']
      rw [hspares]
      obtain ⟨hattempt, h⟩ | ⟨tail, hattempt, h, hhanded⟩ | ⟨e, hattempt, h, hhanded⟩ |
        ⟨m, hattempt, h⟩ := resumeVerifiedTail_cases hook hf p
      · rw [hattempt, resumeTails, h]
        exact ih s
      · rw [hattempt, and_true, resumeTails]
        rcases hr : resumeVerifiedTail P (some hook) s p with ⟨r, s'⟩
        rw [hr] at h hhanded
        obtain rfl : r = .ok (some tail) := h
        unfold AllBroken
        rw [← hhanded]
        rfl
      · rw [hattempt, and_true]
        rcases hr : resumeVerifiedTail P (some hook) s p with ⟨r, s'⟩
        rw [hr] at h hhanded
        obtain rfl : r = .error (.fault (.raised e)) := h
        have hcaught : ¬ (Stop.fault (.raised e)).caught = true := Bool.false_ne_true
        rw [resumeTails_error hr, if_neg hcaught]
        unfold AllBroken
        rw [← hhanded]
        rfl
      · rw [hattempt, resumeTails_error h, ← and_assoc, ← allBroken_concat (w := (hook s.world m).2)]
        dsimp only
        by_cases hcaught : (errorAfter hook s.world m).caught = true
        · rw [if_pos hcaught, ih]
          exact and_congr_right fun _ => (imp_iff_right hcaught).symm
        · rw [if_neg hcaught]
          exact (and_iff_left fun h => absurd h hcaught).symm

variable (P) in
/-- The remembered tails that a call comes to fit. -/
def SparesIntact (hook : RecoveryHook) (created : Nat) (w : World) : Prop :=
  ∀ f disk state, ensureJournal created w.disk = .ok (f, disk) →
    readTailState P disk = .ok state →
      Spares P hook { w with disk } (tailPoints w.cache state)

theorem allBroken_verify_iff (hook : RecoveryHook) (created : Nat) (w : World) :
    AllBroken P (verifyJournalIntegrity P (some hook) created w).2 ↔
      SparesIntact P hook created w := by
  have hnone : ∀ w : World, AllBroken P ⟨w, []⟩ := fun _ b hb => absurd hb List.not_mem_nil
  show AllBroken P (validatedLastHash P (some hook) created w).2 ↔ _
  unfold validatedLastHash SparesIntact
  cases hensure : ensureJournal created w.disk with
  | error e =>
    refine iff_of_true (hnone w) ?_
    intro f disk state h
    cases h
  | ok fd =>
    obtain ⟨f, disk⟩ := fd
    dsimp only
    cases hstate : readTailState P disk with
    | error e =>
      refine iff_of_true (hnone _) ?_
      intro f' disk' state h hstate'
      obtain ⟨rfl, rfl⟩ := Prod.mk.inj (Except.ok.inj h)
      rw [hstate] at hstate'
      cases hstate'
    | ok state =>
      have hloop := allBroken_fallBack_iff (P := P) hook (tailPoints w.cache state)
        ⟨{ w with disk }, []⟩
      rw [and_iff_right (hnone _)] at hloop
      refine Iff.trans ?_ (hloop.trans ?_)
      · dsimp only
        rcases resumeTails P (some hook) ⟨{ w with disk }, []⟩ (tailPoints w.cache state) with
          ⟨e | (_ | tail), s'⟩ <;> rfl
      · constructor
        · intro h f' disk' state' hensure' hstate'
          obtain ⟨rfl, rfl⟩ := Prod.mk.inj (Except.ok.inj hensure')
          obtain rfl := Except.ok.inj (hstate.symm.trans hstate')
          exact h
        · intro h
          exact h f disk state rfl hstate

/-- The hook is not called for a journal that is in order exactly when every remembered tail that
the call comes to on such a journal fits it.  The journal, the tail-state file, the cache and the
hook are arbitrary. -/
theorem handed_iff_spares (hook : RecoveryHook) (created : Nat) (w : World) :
    (∀ b ∈ (verifyJournalIntegrity P (some hook) created w).2.handed, ¬ FullScan P b) ↔
      SparesIntact P hook created w :=
  allBroken_verify_iff hook created w

/-! ### Journals that `append_tx` has written -/

theorem spares_of_tailAt {w : World} (hf : w.disk.journal = some f) (hw : Coherent P w)
    (hfull : FullScan P f.bytes) {ps : List TailPoint}
    (hps : ∀ p ∈ ps, TailAt P f.bytes p.hash p.offset) : Spares P hook w ps := by
  obtain ⟨t, hv⟩ := fullScan_iff.mp hfull
  induction ps with
  | nil => trivial
  | cons p ps ih =>
    intro g hg
    obtain rfl := Option.some.inj (hf.symm.trans hg)
    have hp := (resumeVerifiedTail_coherent hw hf (hps p List.mem_cons_self) hv).1
    rw [resumeVerifiedTail_fst] at hp
    rcases hp with hp | hp
    · rw [hp]
      exact ih fun q hq => hps q (List.mem_cons_of_mem _ hq)
    · rw [hp]
      trivial

theorem sparesIntact_of_coherent {w : World} (hw : Coherent P w) (hook : RecoveryHook)
    (created : Nat) : SparesIntact P hook created w := by
  intro f disk state hensure hstate
  have hd := hw.ensureJournal hensure
  have hf : disk.journal = some f := (ensureJournal_spec hensure).1
  have htail : ∀ {h o}, Known P disk h o → TailAt P f.bytes h o := by
    rintro h o ⟨g, hg, ht⟩
    obtain rfl := Option.some.inj (hf.symm.trans hg)
    exact ht
  have hpoints : ∀ p ∈ tailPoints w.cache state, TailAt P f.bytes p.hash p.offset := by
    intro p hp
    obtain ⟨state', hstate', hknown⟩ := hd.tailState
    obtain rfl := Except.ok.inj (hstate'.symm.trans hstate)
    rcases mem_tailPoints.mp hp with ⟨c, hc, rfl⟩ | ⟨x, hx, rfl⟩
    · exact htail (hd.cache c hc)
    · exact htail (hknown x hx)
  by_cases hfull : FullScan P f.bytes
  · exact spares_of_tailAt hf hd hfull hpoints
  · -- nothing is remembered of a journal that is not in order
    have hnil : tailPoints w.cache state = [] :=
      List.eq_nil_iff_forall_not_mem.mpr fun p hp => hfull (hpoints p hp).fullScan
    rw [hnil]
    trivial

theorem coherent_run {steps : List (Step P)} {s : System} (hs : s.Coherent P)
    (hsteps : ∀ a ∈ steps, a.Stable) : (run P s steps).Coherent P := by
  induction steps generalizing s with
  | nil => exact hs
  | cons a steps ih =>
    exact ih (step_advances hs (hsteps a List.mem_cons_self)).1
      fun b hb => hsteps b (List.mem_cons_of_mem _ hb)

/-- While processes append, lose their caches or die, and nothing else changes the files, no hook is
called for a journal that is in order. -/
theorem handed_broken_of_run {s : System} (hfresh : s.Fresh) (hend : s.Terminated P)
    {steps : List (Step P)} (hsteps : ∀ a ∈ steps, a.Stable) (p created : Nat)
    (hook : RecoveryHook) :
    ∀ b ∈ (verifyJournalIntegrity P (some hook) created ((run P s steps).world p)).2.handed,
      ¬ FullScan P b :=
  (allBroken_verify_iff hook created _).mpr
    (sparesIntact_of_coherent (coherent_run (System.coherent_of_fresh hfresh hend) hsteps p) _ _)

/-- A process appends to a new journal, and another one verifies it. -/
theorem handed_broken_of_append :
    let s := run reference (System.initial none) [.append 0 demoRequest demoClock]
    ∀ b ∈ (verifyJournalIntegrity reference (some fun w _ => (none, w)) 7 (s.world 1)).2.handed,
      ¬ FullScan reference b := by
  refine handed_broken_of_run ⟨rfl, fun _ => rfl⟩ (fun b hb _ => ?_) (by simp [Step.Stable,
    stable_demoRequest]) 1 7 _
  obtain rfl := Except.ok.inj hb
  exact ⟨[], rfl, rfl⟩

/-! ### A tail state that does not fit -/

/-- A tail-state file with a hash that no entry has. -/
def staleTailState : Bytes :=
  (writeText (tailStateText reference (List.replicate 64 102) 0)).toOption.getD []

/-- A journal with one entry, and that tail state. -/
def staleWorld : World where
  disk := { demoSystem.disk with tailState := some staleTailState }
  cache := none

/-- A hook that puts an older snapshot in the journal's place. -/
def restoreSnapshot : RecoveryHook := fun w _ =>
  (none, { w with disk.journal := some ⟨[], 9⟩ })

theorem handed_staleWorld :
    (verifyJournalIntegrity reference (some restoreSnapshot) 0 staleWorld).2.handed.map
      (fun b => (Journal.scanChain reference b 0 genesisHash).isOk) = [true] := by
  decide +kernel

/-- The tail state does not fit, and the journal, which is in order, is handed to the hook. -/
theorem not_handed_broken : ¬ ∀ (hook : RecoveryHook) (created : Nat) (w : World),
    ∀ b ∈ (verifyJournalIntegrity reference (some hook) created w).2.handed,
      ¬ FullScan reference b := by
  intro h
  have hbroken := h restoreSnapshot 0 staleWorld
  have hhanded := handed_staleWorld
  rcases hcalls : (verifyJournalIntegrity reference (some restoreSnapshot) 0 staleWorld).2.handed
    with _ | ⟨b, bs⟩
  · rw [hcalls] at hhanded
    cases hhanded
  · rw [hcalls] at hhanded hbroken
    have hok : (Journal.scanChain reference b 0 genesisHash).isOk = true :=
      (List.cons.inj hhanded).1
    cases hscan : Journal.scanChain reference b 0 genesisHash with
    | error e =>
      rw [hscan] at hok
      cases hok
    | ok tail => exact hbroken b List.mem_cons_self ⟨tail, hscan⟩

end Adaad.Journal.Recovery
