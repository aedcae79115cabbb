import Adaad.Journal.Journal
import Adaad.Ledger.Equiv.ChainFile
import Adaad.Py.Json.Equiv.Chars
import Adaad.Py.Reference

/-!
# What `verify_journal_integrity` accepts

The docstring promises a recomputation of the chain from genesis.  A call that resumes from a
remembered tail reads the bytes from its offset on and nothing else, so its answer is that of the
full scan only where what it did not read is in order.

`verify_iff_fullScan_iff` says exactly when that is: every remembered tail that the call comes to
is `Backed` if it is used, and does not make the call fail with another exception than an integrity
error.
-/

namespace Adaad.Journal

open Py

variable {P : Platform}

/-! ### The full scan -/

theorem lawful_reader : reader.Lawful where
  eq_of_compare h := of_decide_eq_true (Option.some.inj h)
  compare_self _ := compareText_self _

variable (P) in
def FullScan (b : Bytes) : Prop :=
  ∃ tail, scanChain P b 0 genesisHash = .ok tail

theorem scanChain_eq_ok_iff {b : Bytes} {o n : Nat} {h t : Str} :
    scanChain P b o h = .ok (t, n) ↔
      n = b.length ∧ ∃ es, entries P (b.drop o) = some es ∧ (entryFormat P).Valid h es ∧
        (entryFormat P).tail h es = t := by
  unfold scanChain
  rw [map_eq_ok]
  constructor
  · rintro ⟨t', hcheck, h'⟩
    obtain ⟨rfl, rfl⟩ := Prod.mk.inj h'
    exact ⟨rfl, (checkFile_eq_ok_iff lawful_reader (compareText_self _)).mp hcheck⟩
  · rintro ⟨rfl, hes⟩
    exact ⟨t, (checkFile_eq_ok_iff lawful_reader (compareText_self _)).mpr hes, rfl⟩

theorem scanChain_genesis_eq_ok_iff {b : Bytes} {n : Nat} {t : Str} :
    scanChain P b 0 genesisHash = .ok (t, n) ↔ n = b.length ∧ Verified P b t :=
  scanChain_eq_ok_iff

theorem fullScan_iff {b : Bytes} : FullScan P b ↔ ∃ h, Verified P b h := by
  unfold FullScan
  constructor
  · rintro ⟨⟨t, n⟩, h⟩
    exact ⟨t, (scanChain_genesis_eq_ok_iff.mp h).2⟩
  · rintro ⟨t, h⟩
    exact ⟨(t, b.length), scanChain_genesis_eq_ok_iff.mpr ⟨rfl, h⟩⟩

/-! ### Writing the tail -/

theorem exists_writeText_tailStateText {h : Str} (hh : Encodable h) (o : Nat) :
    ∃ b, writeText (tailStateText P h o) = .ok b := by
  have hkeys : Encodable lastHashKey ∧ Encodable offsetKey :=
    ⟨encodable_of_ascii (by decide), encodable_of_ascii (by decide)⟩
  have htext : Encodable (tailStateText P h o) := by
    refine (encodable_dumps_iff P .spaced).mpr ?_
    simp only [Value.chars, charsMembers, Key.chars, List.append_nil]
    exact hkeys.1.append (hh.append hkeys.2)
  obtain ⟨b, hb⟩ := exists_encode_iff.mpr htext
  exact ⟨b, writeText_of_encode hb⟩

theorem exists_writeVerifiedTailState (w : World) {h : Str} (hh : isAscii h = true) (o : Nat) :
    ∃ w', writeVerifiedTailState P w h o = .ok w' := by
  obtain ⟨b, hb⟩ := exists_writeText_tailStateText (P := P) (encodable_of_isAscii hh) o
  refine ⟨Journal.writeVerifiedTailCache P
    { w with disk := { w.disk with tailState := some b } } h o, ?_⟩
  rw [writeVerifiedTailState, writeTailState, hb]
  rfl

theorem rescan_fst (w : World) (f : File) :
    (rescan P w f).1 = scanChain P f.bytes 0 genesisHash := by
  unfold rescan
  cases hscan : scanChain P f.bytes 0 genesisHash with
  | error e => rfl
  | ok tail =>
    obtain ⟨t, n⟩ := tail
    obtain ⟨w', hw'⟩ := exists_writeVerifiedTailState (P := P) w
      (scanChain_genesis_eq_ok_iff.mp hscan).2.isAscii n
    simp only [hw']

theorem rescan_ok_iff {w : World} {f : File} :
    (∃ tail, (rescan P w f).1 = .ok tail) ↔ FullScan P f.bytes := by
  rw [rescan_fst, FullScan]

/-! ### Remembered tails -/

variable (P) in
/-- What becomes of a remembered tail, apart from what is written. -/
def attempt (f : File) (p : TailPoint) : Except Fault (Option (Str × Nat)) :=
  if f.bytes.length < p.offset then .ok none
  else if f.bytes.length = p.offset then
    if p.verified = some (f.mtimeNs, contentDigest P f) then .ok (some (p.hash, p.offset))
    else .ok none
  else do
    let tail ← scanChain P f.bytes p.offset p.hash
    let _ ← (writeText (tailStateText P tail.1 tail.2)).mapError Fault.raised
    return some tail

theorem resumeVerifiedTail_fst (w : World) (f : File) (p : TailPoint) :
    (resumeVerifiedTail P w f p).1 = attempt P f p := by
  unfold resumeVerifiedTail attempt
  split_ifs
  · rfl
  · rfl
  · rfl
  · cases scanChain P f.bytes p.offset p.hash with
    | error e => rfl
    | ok tail =>
      obtain ⟨t, n⟩ := tail
      simp only [writeVerifiedTailState, writeTailState, bind, Except.bind, pure, Except.pure]
      cases writeText (tailStateText P t n) <;> rfl

variable (P) in
/-- The bytes before the offset are a chain from genesis of their own.  It ends in the remembered
hash, unless no entry follows. -/
def Backed (f : File) (p : TailPoint) : Prop :=
  ∃ es, entries P (f.bytes.take p.offset) = some es ∧ (entryFormat P).Valid genesisHash es ∧
    Separate (f.bytes.take p.offset) (f.bytes.drop p.offset) ∧
    ((entryFormat P).tail genesisHash es = p.hash ∨ entries P (f.bytes.drop p.offset) = some [])

variable (P) in
/-- The remembered tails, in the order in which the call comes to them, are no obstacle: one that
is used is backed, and one that fails otherwise than by an integrity error does so on a journal that
is not in order.  After a tail that is used or fails so the call is over. -/
def Sound (f : File) : List TailPoint → Prop
  | [] => True
  | p :: ps =>
    match attempt P f p with
    | .ok (some _) => Backed P f p
    | .ok none => Sound f ps
    | .error (.integrity _) => Sound f ps
    | .error (.raised _) => ¬ FullScan P f.bytes

theorem entries_nil : entries P [] = some [] := rfl

theorem attempt_eq_ok_some {f : File} {p : TailPoint} {h : Str} {n : Nat}
    (hused : attempt P f p = .ok (some (h, n))) :
    n = f.bytes.length ∧ ∃ es, entries P (f.bytes.drop p.offset) = some es ∧
      (entryFormat P).Valid p.hash es ∧ (entryFormat P).tail p.hash es = h := by
  unfold attempt at hused
  by_cases hlt : f.bytes.length < p.offset
  · rw [if_pos hlt] at hused
    exact nomatch hused
  rw [if_neg hlt] at hused
  by_cases heq : f.bytes.length = p.offset
  · rw [if_pos heq] at hused
    split_ifs at hused
    · obtain ⟨rfl, rfl⟩ := Prod.mk.inj (Option.some.inj (Except.ok.inj hused))
      refine ⟨heq.symm, [], ?_, trivial, rfl⟩
      rw [List.drop_of_length_le (Nat.le_of_eq heq), entries_nil]
    · exact nomatch hused
  · rw [if_neg heq] at hused
    obtain ⟨⟨t, m⟩, hscan, hrest⟩ := bind_eq_ok.mp hused
    obtain ⟨-, -, hpure⟩ := bind_eq_ok.mp hrest
    obtain ⟨rfl, rfl⟩ := Prod.mk.inj (Option.some.inj (Except.ok.inj hpure))
    exact scanChain_eq_ok_iff.mp hscan

theorem fullScan_iff_backed {f : File} {p : TailPoint} {tail : Str × Nat}
    (hused : attempt P f p = .ok (some tail)) : FullScan P f.bytes ↔ Backed P f p := by
  obtain ⟨-, es₂, hes₂, hvalid₂, -⟩ := attempt_eq_ok_some hused
  have hsplit : f.bytes.take p.offset ++ f.bytes.drop p.offset = f.bytes :=
    List.take_append_drop _ _
  rw [fullScan_iff, Backed, hes₂]
  constructor
  · rintro ⟨-, es, hes, hvalid, -⟩
    rw [← hsplit] at hes
    obtain ⟨es₁, hes₁, rfl, hsep⟩ := exists_entries_left hes hes₂
    obtain ⟨hvalid₁, htail⟩ := ((entryFormat P).valid_append_iff_of_valid hvalid₂).mp hvalid
    exact ⟨es₁, hes₁, hvalid₁, hsep, htail.imp_right (congrArg some)⟩
  · rintro ⟨es₁, hes₁, hvalid₁, hsep, htail⟩
    have hes := entries_append_of_separate hsep hes₁ hes₂
    rw [hsplit] at hes
    exact ⟨_, es₁ ++ es₂, hes, ((entryFormat P).valid_append_iff_of_valid hvalid₂).mpr
      ⟨hvalid₁, htail.imp_right Option.some.inj⟩, rfl⟩

theorem resumeTails_ok_iff {f : File} (ps : List TailPoint) (w : World) :
    ((∃ tail, (match resumeTails P f w ps with
        | (.error e, w) => (.error e, w)
        | (.ok (some tail), w) => (.ok tail, w)
        | (.ok none, w) => rescan P w f : Except Fault (Str × Nat) × World).1 = .ok tail) ↔
      FullScan P f.bytes) ↔ Sound P f ps := by
  induction ps generalizing w with
  | nil =>
    simp only [resumeTails, Sound, iff_true]
    exact rescan_ok_iff
  | cons p ps ih =>
    rw [resumeTails, Sound, ← resumeVerifiedTail_fst w f p]
    have hused : ∀ tail, (resumeVerifiedTail P w f p).1 = .ok (some tail) →
        (FullScan P f.bytes ↔ Backed P f p) := fun tail h =>
      fullScan_iff_backed ((resumeVerifiedTail_fst w f p).symm.trans h)
    rcases hr : resumeVerifiedTail P w f p with ⟨(m | e) | (_ | tail), w'⟩
    · exact ih _
    · simp
    · exact ih _
    · simp [hused tail (by rw [hr])]

variable (P) in
/-- When the verification of a journal `f` can be trusted. -/
def Trustworthy (f : File) (w : World) : Prop :=
  match readTailState P w.disk with
  | .error _ => ¬ FullScan P f.bytes
  | .ok state => Sound P f (tailPoints w.cache state)

/-- `verify_journal_integrity` agrees with the full scan from genesis exactly when the tail-state
file can be decoded, or the journal is not in order anyway, and every remembered tail that the call
comes to is sound.  The journal, the tail-state file, the cache and the times are arbitrary. -/
theorem verify_iff_fullScan_iff (f : File) (genesis tailState : Option Bytes)
    (cache : Option TailCache) (created : Nat) :
    ((verifyJournalIntegrity P created ⟨⟨some f, genesis, tailState⟩, cache⟩).1 = .ok () ↔
        FullScan P f.bytes) ↔
      Trustworthy P f ⟨⟨some f, genesis, tailState⟩, cache⟩ := by
  have hverify : ∀ w : World, (verifyJournalIntegrity P created w).1 = .ok () ↔
      ∃ tail, (validatedLastHash P created w).1 = .ok tail := fun w => by
    unfold verifyJournalIntegrity
    simp only [map_eq_ok, and_true]
  rw [hverify, validatedLastHash, Trustworthy]
  simp only [ensureJournal]
  cases readTailState P ⟨some f, genesis, tailState⟩ with
  | error e => simp
  | ok state => exact resumeTails_ok_iff _ _

/-! ### An edited prefix -/

/-- A call of `append_tx`. -/
def demoRequest : Request reference where
  txType := str "demo"
  payload := ⟨[(.str (str "n"), .int 1)], by simp [Value.WF, WFMembers]⟩
  txId := some (str "T1")
  tenantContext := []

def demoClock : Clock where
  compact := str "20260101000000"
  iso := str "2026-01-01T00:00:00Z"
  created := 1
  written := 2

/-- A journal to which one entry was appended. -/
def demoSystem : System :=
  run reference (System.initial none) [.append 0 demoRequest demoClock]

/-- The journal with a digit of the entry's time stamp changed and a blank line added. -/
def editedJournal : File where
  bytes := (demoSystem.disk.journal.elim [] File.bytes).set 23 51 ++ [10]
  mtimeNs := 3

theorem verify_editedJournal : (verifyJournalIntegrity reference 0
    ⟨{ demoSystem.disk with journal := some editedJournal }, demoSystem.caches 0⟩).1 = .ok () := by
  decide +kernel

theorem scanChain_editedJournal :
    (scanChain reference editedJournal.bytes 0 genesisHash).isOk = false := by
  decide +kernel

/-- An edit of a verified entry is accepted when a line break is added behind it: the call resumes
behind the entry. -/
theorem not_verify_iff_fullScan : ¬ ∀ (steps : List (Step reference)) (f : File) (p created : Nat),
    let s := run reference (System.initial none) steps
    (verifyJournalIntegrity reference created
        ⟨{ s.disk with journal := some f }, s.caches p⟩).1 = .ok () ↔
      FullScan reference f.bytes := by
  intro h
  obtain ⟨tail, htail⟩ :=
    (h [.append 0 demoRequest demoClock] editedJournal 0 0).mp verify_editedJournal
  have := scanChain_editedJournal
  rw [htail] at this
  exact Bool.noConfusion this

end Adaad.Journal
