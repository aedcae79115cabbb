import Adaad.Journal.Equiv.Append

/-!
# Warm and cold appends

JOURNAL-CACHE-DETERM-0: an append chains the same hashes whether a tail is remembered or not.

The reference is a run in which everything remembered is forgotten before each step, so that every
call scans the journal from genesis (`validatedLastHash_forget`).  What carries the proof is that a
remembered tail is the tail of the bytes before its offset, and that a line starts there (`TailAt`):
the journal only grows, so this stays true of a cache that another process, or a crash, has left
behind.

`run_eq_coldRun` needs two things.  The journal that the run starts from must not end within a line,
and what is hashed must survive the writing.  Otherwise a cold append rejects the journal that a
warm one goes on with (`not_results_eq_coldResults`).
-/

namespace Adaad.Journal

open Py

variable {P : Platform}

/-! ### The reference -/

/-- The disk without the tail-state file, and a process without a cache. -/
def World.forget (w : World) : World :=
  ⟨{ w.disk with tailState := none }, none⟩

/-- The system in which nothing is remembered. -/
def System.forget (s : System) : System :=
  ⟨{ s.disk with tailState := none }, fun _ => none⟩

theorem SameFiles.forget_eq {w w' : World} (h : SameFiles w w') : w'.forget = w.forget := by
  obtain ⟨⟨j, g, t⟩, c⟩ := w
  obtain ⟨⟨j', g', t'⟩, c'⟩ := w'
  obtain ⟨rfl, rfl⟩ := h
  rfl

theorem sameFiles_forget (w : World) : SameFiles w w.forget := ⟨rfl, rfl⟩

theorem validatedLastHash_forget {created : Nat} {w : World} {f : File} {d : Disk}
    (hf : ensureJournal created w.forget.disk = .ok (f, d)) :
    validatedLastHash P created w.forget = rescan P ⟨d, none⟩ f := by
  have hstate : readTailState P d = .ok none := by
    rw [readTailState, (ensureJournal_spec hf).2.2]
    rfl
  rw [validatedLastHash, hf]
  simp only [hstate]
  rfl

variable (P) in
def coldStep (s : System) (a : Step P) : System :=
  step P s.forget a

variable (P) in
def coldRun (s : System) (steps : List (Step P)) : System :=
  steps.foldl (coldStep P) s

variable (P) in
def results (s : System) : List (Step P) → List (Option (Except Fault (Members P.Float)))
  | [] => []
  | a :: steps => result P s a :: results (step P s a) steps

variable (P) in
def coldResults (s : System) : List (Step P) → List (Option (Except Fault (Members P.Float)))
  | [] => []
  | a :: steps => result P s.forget a :: coldResults (coldStep P s a) steps

variable (P) in
/-- The entry that a step appends: the one it returns, or the one whose line a call had written when
it died. -/
def writtenBy (s : System) : Step P → Option (Members P.Float)
  | .append p r clock => (appendTx P r clock (s.world p)).1.toOption
  | .crash p r clock _ => (appendLine P r clock (s.world p)).1.toOption.map Appended.entry
  | .evict _ => none

variable (P) in
def written (s : System) : List (Step P) → List (Members P.Float)
  | [] => []
  | a :: steps => (writtenBy P s a).toList ++ written (step P s a) steps

/-- The bytes of the journal, or what it would be created with. -/
def Disk.contents (d : Disk) : Except Exc Bytes :=
  match d.journal with
  | some f => .ok f.bytes
  | none => seedBytes d.genesis

theorem contents_of_ensureJournal {now : Nat} {d d' : Disk} {f : File}
    (h : ensureJournal now d = .ok (f, d')) : d.contents = .ok f.bytes := by
  unfold ensureJournal at h
  unfold Disk.contents
  cases hj : d.journal with
  | some g =>
    rw [hj] at h
    obtain ⟨rfl, -⟩ := Prod.mk.inj (Except.ok.inj h)
    rfl
  | none =>
    rw [hj] at h
    obtain ⟨b, hb, h⟩ := bind_eq_ok.mp h
    obtain ⟨rfl, -⟩ := Prod.mk.inj (Except.ok.inj h)
    exact hb

/-! ### The tail-state file -/

theorem loads_tailStateText (h : Str) (o : Nat) : loads P (tailStateText P h o) =
    some (.dict [(.str lastHashKey, .str h), (.str offsetKey, .int o)]) := by
  rw [tailStateText, loads_dumps,
    image_dict_of_isString P (by simp [Key.isString]) (by simp; decide)]
  rfl

theorem readTailState_of_writeTailState {w w' : World} {h : Str} {o : Nat}
    (hw : writeTailState P w h o = .ok w') :
    ∃ state, readTailState P w'.disk = .ok state ∧ ∀ x ∈ state, x = (h, o) := by
  obtain ⟨b, hb, hw⟩ := bind_eq_ok.mp hw
  obtain rfl := Except.ok.inj hw
  have htext : readText b = .ok (tailStateText P h o) := by
    rw [readText, decode_of_writeText hb]
    simp only
    rw [universalNewlines_eq_self]
    intro c hc
    have := (mem_dumps P .spaced hc).1
    simp only [cr, ne_eq]
    omega
  have hne : lastHashKey ≠ offsetKey := by decide
  have hoffset : Py.get ([(.str lastHashKey, .str h), (.str offsetKey, .int o)] : Members P.Float)
      offsetKey = some (.int o) := by
    simp [Py.get, Key.is, hne]
  simp only [readTailState, htext, bind, Except.bind, loads_tailStateText, Option.bind_some,
    Value.members?, get_cons_self, strOr_str, hoffset]
  split_ifs
  · exact ⟨none, rfl, by simp⟩
  · exact ⟨some (h, o), by simp [readOffset, pure, Except.pure], by simp⟩

/-! ### Remembered tails -/

/-- The journal `b` is in order.  A line starts at the offset `o`, and the entry before it has the
hash `h`. -/
structure TailAt (P : Platform) (b : Bytes) (h : Str) (o : Nat) : Prop where
  fullScan : FullScan P b
  endsBlank : EndsBlank b
  le : o ≤ b.length
  verified : Verified P (b.take o) h
  startsLine : EndsBlank (b.take o)

theorem tailAt_length {b : Bytes} {h : Str} (hv : Verified P b h) (hb : EndsBlank b) :
    TailAt P b h b.length where
  fullScan := fullScan_iff.mpr ⟨h, hv⟩
  endsBlank := hb
  le := Nat.le_refl _
  verified := by rwa [List.take_length]
  startsLine := by rwa [List.take_length]

theorem TailAt.append {b line : Bytes} {h : Str} {o : Nat} (ht : TailAt P b h o)
    (hfull : FullScan P (b ++ line)) (hblank : EndsBlank (b ++ line)) :
    TailAt P (b ++ line) h o where
  fullScan := hfull
  endsBlank := hblank
  le := by
    rw [List.length_append]
    exact Nat.le_add_right_of_le ht.le
  verified := by
    rw [List.take_append_of_le_length ht.le]
    exact ht.verified
  startsLine := by
    rw [List.take_append_of_le_length ht.le]
    exact ht.startsLine

theorem TailAt.scanChain_eq {b : Bytes} {h t : Str} {o : Nat} (ht : TailAt P b h o)
    (hv : Verified P b t) : scanChain P b o h = .ok (t, b.length) := by
  obtain ⟨es, hes, hvalid, rfl⟩ := hv
  have hsplit : entries P (b.take o ++ b.drop o) = some es := by
    rw [List.take_append_drop, hes]
  obtain ⟨es₁, es₂, hes₁, hes₂, rfl⟩ := (entries_append_of_blank ht.startsLine).mp hsplit
  obtain ⟨hvalid₁, hvalid₂⟩ := (entryFormat P).valid_append.mp hvalid
  obtain rfl : (entryFormat P).tail genesisHash es₁ = h :=
    Verified.unique ⟨es₁, hes₁, hvalid₁, rfl⟩ ht.verified
  exact scanChain_eq_ok_iff.mpr ⟨rfl, es₂, hes₂, hvalid₂, ((entryFormat P).tail_append _ _ _).symm⟩

/-- A tail that holds of the journal on the disk. -/
def Known (P : Platform) (d : Disk) (h : Str) (o : Nat) : Prop :=
  ∃ f, d.journal = some f ∧ TailAt P f.bytes h o

/-- What a process remembers, and what the tail-state file says, holds of the journal. -/
structure Coherent (P : Platform) (w : World) : Prop where
  endsBlank : ∀ b, w.disk.contents = .ok b → FullScan P b → EndsBlank b
  tailState : ∃ state, readTailState P w.disk = .ok state ∧ ∀ x ∈ state, Known P w.disk x.1 x.2
  cache : ∀ c ∈ w.cache, Known P w.disk c.lastHash c.offset

theorem Known.congr {w w' : World} (hfiles : SameFiles w w') {h : Str} {o : Nat} :
    Known P w'.disk h o ↔ Known P w.disk h o := by
  rw [Known, Known, hfiles.1]

theorem SameFiles.contents_eq {w w' : World} (h : SameFiles w w') :
    w'.disk.contents = w.disk.contents := by
  rw [Disk.contents, Disk.contents, h.1, h.2]

theorem Coherent.clearCache {w : World} (hw : Coherent P w) :
    Coherent P { w with cache := none } where
  endsBlank := hw.endsBlank
  tailState := hw.tailState
  cache := by simp

theorem Coherent.writeVerifiedTailCache {w : World} (hw : Coherent P w) {h : Str} {o : Nat}
    (hknown : Known P w.disk h o) : Coherent P (writeVerifiedTailCache P w h o) where
  endsBlank := hw.endsBlank
  tailState := hw.tailState
  cache c hc := by
    obtain rfl := Option.some.inj hc
    exact hknown

theorem sameFiles_writeTailState {w w' : World} {h : Str} {o : Nat}
    (hw : writeTailState P w h o = .ok w') : SameFiles w w' := by
  obtain ⟨b, -, hw⟩ := bind_eq_ok.mp hw
  obtain rfl := Except.ok.inj hw
  exact ⟨rfl, rfl⟩

theorem cache_writeTailState {w w' : World} {h : Str} {o : Nat}
    (hw : writeTailState P w h o = .ok w') : w'.cache = w.cache := by
  obtain ⟨b, -, hw⟩ := bind_eq_ok.mp hw
  obtain rfl := Except.ok.inj hw
  rfl

theorem Coherent.writeTailState {w w' : World} (hw : Coherent P w) {h : Str} {o : Nat}
    (hknown : Known P w.disk h o) (hw' : writeTailState P w h o = .ok w') : Coherent P w' := by
  have hfiles := sameFiles_writeTailState hw'
  refine ⟨?_, ?_, ?_⟩
  · rw [hfiles.contents_eq]
    exact hw.endsBlank
  · obtain ⟨state, hstate, hall⟩ := readTailState_of_writeTailState hw'
    refine ⟨state, hstate, fun x hx => ?_⟩
    obtain rfl := hall x hx
    exact (Known.congr hfiles).mpr hknown
  · rw [cache_writeTailState hw']
    exact fun c hc => (Known.congr hfiles).mpr (hw.cache c hc)

theorem Coherent.writeVerifiedTailState {w w' : World} (hw : Coherent P w) {h : Str} {o : Nat}
    (hknown : Known P w.disk h o) (hw' : writeVerifiedTailState P w h o = .ok w') :
    Coherent P w' := by
  obtain ⟨w₁, hw₁, hw'⟩ := bind_eq_ok.mp hw'
  obtain rfl := Except.ok.inj hw'
  exact (hw.writeTailState hknown hw₁).writeVerifiedTailCache
    ((Known.congr (sameFiles_writeTailState hw₁)).mpr hknown)

/-! ### Calls on a coherent world -/

theorem resumeVerifiedTail_coherent {w : World} {f : File} {p : TailPoint} {t : Str}
    (hw : Coherent P w) (hf : w.disk.journal = some f) (ht : TailAt P f.bytes p.hash p.offset)
    (hv : Verified P f.bytes t) :
    ((resumeVerifiedTail P w f p).1 = .ok none ∨
      (resumeVerifiedTail P w f p).1 = .ok (some (t, f.bytes.length))) ∧
    Coherent P (resumeVerifiedTail P w f p).2 := by
  unfold resumeVerifiedTail
  rw [if_neg (Nat.not_lt.mpr ht.le)]
  by_cases heq : f.bytes.length = p.offset
  · rw [if_pos heq]
    split_ifs
    · have hp := ht.verified
      rw [← heq, List.take_length] at hp
      rw [hv.unique hp, heq]
      exact ⟨.inr rfl, hw.writeVerifiedTailCache ⟨f, hf, ht⟩⟩
    · exact ⟨.inl rfl, hw⟩
  · rw [if_neg heq, ht.scanChain_eq hv]
    have hknown : Known P w.disk t f.bytes.length := ⟨f, hf, tailAt_length hv ht.endsBlank⟩
    simp only
    obtain ⟨w', hwrite⟩ := exists_writeVerifiedTailState (P := P) w hv.isAscii f.bytes.length
    rw [hwrite]
    exact ⟨.inr rfl, hw.writeVerifiedTailState hknown hwrite⟩

theorem resumeTails_coherent {f : File} {t : Str} (hv : Verified P f.bytes t)
    {ps : List TailPoint} {w : World} (hw : Coherent P w) (hf : w.disk.journal = some f)
    (hps : ∀ p ∈ ps, TailAt P f.bytes p.hash p.offset) :
    ((resumeTails P f w ps).1 = .ok none ∨
      (resumeTails P f w ps).1 = .ok (some (t, f.bytes.length))) ∧
    Coherent P (resumeTails P f w ps).2 := by
  induction ps generalizing w with
  | nil => exact ⟨.inl rfl, hw⟩
  | cons p ps ih =>
    have hp := resumeVerifiedTail_coherent hw hf (hps p (by simp)) hv
    have hfiles := sameFiles_resumeVerifiedTail (P := P) w f p
    rw [resumeTails]
    rcases hr : resumeVerifiedTail P w f p with ⟨(m | e) | (_ | tail), w'⟩ <;>
      rw [hr] at hp hfiles
    · simp at hp
    · simp at hp
    · exact ih hp.2 (hfiles.1.trans hf) fun q hq => hps q (by simp [hq])
    · exact ⟨.inr (hp.1.resolve_left (by simp)), hp.2⟩

theorem rescan_coherent {w : World} {f : File} (hw : Coherent P w)
    (hf : w.disk.journal = some f) : Coherent P (rescan P w f).2 := by
  unfold rescan
  split
  · exact hw
  · next t n hscan =>
    obtain ⟨rfl, hv⟩ := scanChain_genesis_eq_ok_iff.mp hscan
    have hblank : EndsBlank f.bytes :=
      hw.endsBlank _ (by rw [Disk.contents, hf]) (fullScan_iff.mpr ⟨t, hv⟩)
    split
    · exact hw
    · next w' hwrite =>
      exact hw.writeVerifiedTailState ⟨f, hf, tailAt_length hv hblank⟩ hwrite

theorem Coherent.ensureJournal {created : Nat} {w : World} {f : File} {d : Disk}
    (hw : Coherent P w) (hf : ensureJournal created w.disk = .ok (f, d)) :
    Coherent P { w with disk := d } := by
  obtain ⟨hj, -, hstate⟩ := ensureJournal_spec hf
  have hknown : ∀ {h o}, Known P w.disk h o → Known P d h o := by
    rintro h o ⟨g, hg, ht⟩
    rw [Journal.ensureJournal, hg] at hf
    obtain ⟨rfl, rfl⟩ := Prod.mk.inj (Except.ok.inj hf)
    exact ⟨g, hg, ht⟩
  refine ⟨fun b hb => ?_, ?_, fun c hc => hknown (hw.cache c hc)⟩
  · rw [Disk.contents, hj] at hb
    obtain rfl := Except.ok.inj hb
    exact hw.endsBlank _ (contents_of_ensureJournal hf)
  · obtain ⟨state, hread, hall⟩ := hw.tailState
    refine ⟨state, ?_, fun x hx => hknown (hall x hx)⟩
    rw [readTailState, hstate]
    exact hread

theorem mem_tailPoints {cache : Option TailCache} {state : Option (Str × Nat)} {p : TailPoint} :
    p ∈ tailPoints cache state ↔ (∃ c ∈ cache, c.point = p) ∨ ∃ x ∈ state, ⟨x.1, x.2, none⟩ = p := by
  simp [tailPoints]

theorem ensureJournal_forget (created : Nat) (w : World) :
    ensureJournal created w.forget.disk =
      (ensureJournal created w.disk).map fun x => (x.1, { x.2 with tailState := none }) := by
  obtain ⟨⟨_ | f, g, t⟩, c⟩ := w
  · simp only [World.forget, ensureJournal]
    cases seedBytes g <;> rfl
  · rfl

theorem validatedLastHash_coherent {w : World} (hw : Coherent P w) (created : Nat) :
    (validatedLastHash P created w).1 = (validatedLastHash P created w.forget).1 ∧
    Coherent P (validatedLastHash P created w).2 := by
  cases hf : ensureJournal created w.disk with
  | error e =>
    rw [validatedLastHash, validatedLastHash, ensureJournal_forget, hf]
    exact ⟨rfl, hw⟩
  | ok fd =>
    obtain ⟨f, d⟩ := fd
    have hf' : ensureJournal created w.forget.disk = .ok (f, { d with tailState := none }) := by
      rw [ensureJournal_forget, hf]
      rfl
    have hd := hw.ensureJournal hf
    have hj : d.journal = some f := (ensureJournal_spec hf).1
    obtain ⟨state, hstate, hknown⟩ := hd.tailState
    have hpoints : ∀ p ∈ tailPoints w.cache state, TailAt P f.bytes p.hash p.offset := by
      have htail : ∀ {h o}, Known P d h o → TailAt P f.bytes h o := by
        rintro h o ⟨g, hg, ht⟩
        obtain rfl := Option.some.inj (hj.symm.trans hg)
        exact ht
      intro p hp
      rcases mem_tailPoints.mp hp with ⟨c, hc, rfl⟩ | ⟨x, hx, rfl⟩
      · exact htail (hd.cache c hc)
      · exact htail (hknown x hx)
    rw [validatedLastHash_forget hf', rescan_fst, validatedLastHash, hf]
    simp only [hstate]
    by_cases hfull : FullScan P f.bytes
    · obtain ⟨t, hv⟩ := fullScan_iff.mp hfull
      rw [scanChain_genesis_eq_ok_iff.mpr ⟨rfl, hv⟩]
      have hresume := resumeTails_coherent hv hd hj hpoints
      have hfiles := sameFiles_resumeTails (P := P) f (tailPoints w.cache state)
        { w with disk := d }
      rcases hr : resumeTails P f { w with disk := d } (tailPoints w.cache state)
        with ⟨e | _ | tail, w'⟩ <;> rw [hr] at hresume hfiles
      · simp at hresume
      · refine ⟨?_, rescan_coherent hresume.2 (hfiles.1.trans hj)⟩
        rw [rescan_fst, scanChain_genesis_eq_ok_iff.mpr ⟨rfl, hv⟩]
      · obtain rfl : tail = (t, f.bytes.length) := by simpa using hresume.1
        exact ⟨rfl, hresume.2⟩
    · -- nothing is remembered of a journal that is not in order
      have hnil : tailPoints w.cache state = [] :=
        List.eq_nil_iff_forall_not_mem.mpr fun p hp => hfull (hpoints p hp).fullScan
      rw [hnil]
      exact ⟨rescan_fst _ f, rescan_coherent hd hj⟩

theorem contents_validatedLastHash (created : Nat) (w : World) :
    (validatedLastHash P created w).2.disk.contents = w.disk.contents := by
  cases hf : ensureJournal created w.disk with
  | error e =>
    rw [validatedLastHash, hf]
  | ok fd =>
    obtain ⟨f, d⟩ := fd
    have hj := (sameFiles_validatedLastHash (P := P) hf).1.trans (ensureJournal_spec hf).1
    rw [contents_of_ensureJournal hf, Disk.contents, hj]

theorem known_validatedLastHash (created : Nat) {w : World} {h : Str} {o : Nat}
    (hknown : Known P w.disk h o) : Known P (validatedLastHash P created w).2.disk h o := by
  obtain ⟨f, hj, ht⟩ := hknown
  have hf : ensureJournal created w.disk = .ok (f, w.disk) := by rw [ensureJournal, hj]
  exact ⟨f, (sameFiles_validatedLastHash hf).1.trans hj, ht⟩

theorem sameFiles_validatedLastHash_forget (created : Nat) (w : World) :
    SameFiles (validatedLastHash P created w).2 (validatedLastHash P created w.forget).2 := by
  cases hf : ensureJournal created w.disk with
  | error e =>
    rw [validatedLastHash, validatedLastHash, ensureJournal_forget, hf]
    exact sameFiles_forget w
  | ok fd =>
    obtain ⟨f, d⟩ := fd
    have hwarm := sameFiles_validatedLastHash (P := P) hf
    have hf' : ensureJournal created w.forget.disk = .ok (f, { d with tailState := none }) := by
      rw [ensureJournal_forget, hf]
      rfl
    have hcold := sameFiles_validatedLastHash (P := P) hf'
    exact ⟨hcold.1.trans hwarm.1.symm, hcold.2.trans hwarm.2.symm⟩

/-! ### A call does what a cold call does -/

variable {r : Request P} {clock : Clock} {w w' : World}

theorem appendLine_congr (hw : SameFiles w w')
    (hfst : (validatedLastHash P clock.created w).1 = (validatedLastHash P clock.created w').1)
    (hsnd : SameFiles (validatedLastHash P clock.created w).2
      (validatedLastHash P clock.created w').2) :
    (appendLine P r clock w).1 = (appendLine P r clock w').1 ∧
    SameFiles (appendLine P r clock w).2 (appendLine P r clock w').2 := by
  unfold appendLine
  cases validateEventTypeForAgmStep P r.txType (Py.get r.payload.items agmStepKey) with
  | error e => exact ⟨rfl, hw⟩
  | ok ty =>
    rcases hv : validatedLastHash P clock.created w with ⟨t, v⟩
    rcases hv' : validatedLastHash P clock.created w' with ⟨t', v'⟩
    rw [hv, hv'] at hfst hsnd
    obtain rfl : t = t' := hfst
    rcases t with e | ⟨prev, offset⟩
    · exact ⟨rfl, hsnd⟩
    simp only
    cases hashLine P prev (draftEntry P r ty clock prev) with
    | error e => exact ⟨rfl, hsnd⟩
    | ok hash =>
      simp only
      cases writeText (entryLine P (Py.set (draftEntry P r ty clock prev) hashKey (.str hash))) with
      | error e => exact ⟨rfl, hsnd⟩
      | ok line => exact ⟨rfl, by simp only; rw [hsnd.1], hsnd.2⟩

theorem appendLine_error {e : Fault} (he : (appendLine P r clock w).1 = .error e) :
    (appendLine P r clock w).2 = w ∨
      (appendLine P r clock w).2 = (validatedLastHash P clock.created w).2 := by
  unfold appendLine at he ⊢
  cases hty : validateEventTypeForAgmStep P r.txType (Py.get r.payload.items agmStepKey) with
  | error e => exact .inl rfl
  | ok ty =>
    rw [hty] at he
    refine .inr ?_
    rcases hv : validatedLastHash P clock.created w with ⟨e' | ⟨prev, offset⟩, v⟩
    · rfl
    rw [hv] at he
    simp only at he ⊢
    cases hhash : hashLine P prev (draftEntry P r ty clock prev) with
    | error e => rfl
    | ok hash =>
      rw [hhash] at he
      simp only at he ⊢
      cases hline : writeText
          (entryLine P (Py.set (draftEntry P r ty clock prev) hashKey (.str hash))) with
      | error e => rfl
      | ok line =>
        rw [hline] at he
        exact nomatch he

theorem appendTx_congr (hw : SameFiles w w')
    (hfst : (validatedLastHash P clock.created w).1 = (validatedLastHash P clock.created w').1)
    (hsnd : SameFiles (validatedLastHash P clock.created w).2
      (validatedLastHash P clock.created w').2) :
    (appendTx P r clock w).1 = (appendTx P r clock w').1 ∧
    SameFiles (appendTx P r clock w).2 (appendTx P r clock w').2 := by
  obtain ⟨hline, hfiles⟩ := appendLine_congr (r := r) hw hfst hsnd
  obtain ⟨e, he, hcall⟩ | ⟨a, v, ha, hv, hcall⟩ := appendTx_spec r clock w
  · obtain ⟨e', he', hcall'⟩ | ⟨a', v', ha', -, -⟩ := appendTx_spec r clock w'
    · rw [hcall, hcall']
      obtain rfl : e = e' := Except.error.inj (he.symm.trans (hline.trans he'))
      exact ⟨rfl, hfiles⟩
    · rw [he, ha'] at hline
      exact nomatch hline
  · obtain ⟨e', he', -⟩ | ⟨a', v', ha', hv', hcall'⟩ := appendTx_spec r clock w'
    · rw [ha, he'] at hline
      exact nomatch hline
    · rw [hcall, hcall']
      obtain rfl : a = a' := Except.ok.inj (ha.symm.trans (hline.trans ha'))
      obtain ⟨hj, hg⟩ := sameFiles_writeVerifiedTailState hv
      obtain ⟨hj', hg'⟩ := sameFiles_writeVerifiedTailState hv'
      exact ⟨rfl, hj'.trans (hfiles.1.trans hj.symm), hg'.trans (hfiles.2.trans hg.symm)⟩

/-! ### What a call adds -/

/-- A journal in order stays so and gets the entries `es`; another one stays as it is. -/
structure Grows (P : Platform) (b b' : Bytes) (es : List (Members P.Float)) : Prop where
  fullScan : FullScan P b → FullScan P b'
  entries_eq : FullScan P b → ∀ es₀, entries P b = some es₀ →
    entries P b' = some (es₀ ++ es.map (entryReadBack P))
  eq_self : ¬ FullScan P b → b' = b ∧ es = []

theorem Grows.refl (b : Bytes) : Grows P b b [] where
  fullScan := id
  entries_eq _ es₀ h := by simpa using h
  eq_self _ := ⟨rfl, rfl⟩

theorem Grows.trans {b b' b'' : Bytes} {es es' : List (Members P.Float)} (h : Grows P b b' es)
    (h' : Grows P b' b'' es') : Grows P b b'' (es ++ es') where
  fullScan hb := h'.fullScan (h.fullScan hb)
  entries_eq hb es₀ hes := by
    rw [h'.entries_eq (h.fullScan hb) _ (h.entries_eq hb es₀ hes), List.map_append,
      List.append_assoc]
  eq_self hb := by
    obtain ⟨rfl, rfl⟩ := h.eq_self hb
    exact h'.eq_self hb

/-- The disk has a journal, or can make one, that has grown by `es`. -/
def Disk.Grows (P : Platform) (d d' : Disk) (es : List (Members P.Float)) : Prop :=
  ∀ b, d.contents = .ok b → ∃ b', d'.contents = .ok b' ∧ Journal.Grows P b b' es

theorem Disk.grows_of_eq {d d' : Disk} (h : d'.contents = d.contents) : Disk.Grows P d d' [] :=
  fun b hb => ⟨b, h.trans hb, .refl b⟩

theorem Disk.Grows.trans {d d' d'' : Disk} {es es' : List (Members P.Float)}
    (h : Disk.Grows P d d' es) (h' : Disk.Grows P d' d'' es') : Disk.Grows P d d'' (es ++ es') := by
  intro b hb
  obtain ⟨b', hb', hgrows⟩ := h b hb
  obtain ⟨b'', hb'', hgrows'⟩ := h' b' hb'
  exact ⟨b'', hb'', hgrows.trans hgrows'⟩

/-- What a step does to the world of the process that takes it. -/
structure Advances (P : Platform) (w w' : World) (es : List (Members P.Float)) : Prop where
  coherent : Coherent P w'
  known : ∀ {h o}, Known P w.disk h o → Known P w'.disk h o
  grows : Disk.Grows P w.disk w'.disk es

/-- The payload of a request is hashed the same after it was written and read back. -/
def Request.Stable (r : Request P) : Prop :=
  Py.Stable P .spaced r.stored

theorem appendLine_advances_of_ok (hw : Coherent P w) (hr : r.Stable) {a : Appended P}
    (ha : (appendLine P r clock w).1 = .ok a) :
    Advances P w (appendLine P r clock w).2 [a.entry] ∧
    Known P (appendLine P r clock w).2.disk a.hash a.offset := by
  obtain ⟨f, d, hf⟩ := exists_ensureJournal ha
  obtain ⟨ty, prev, offset, line, hv, hhash, hentry, hline, hoffset, hsnd⟩ := appendLine_eq_ok hf ha
  obtain ⟨hfst, hcoherent⟩ := validatedLastHash_coherent hw clock.created
  have hcontents := contents_of_ensureJournal hf
  have hprev : offset = f.bytes.length ∧ Verified P f.bytes prev := by
    have hf' : ensureJournal clock.created w.forget.disk = .ok (f, { d with tailState := none }) := by
      rw [ensureJournal_forget, hf]
      rfl
    rw [hfst, validatedLastHash_forget hf', rescan_fst] at hv
    exact scanChain_genesis_eq_ok_iff.mp hv
  have hblank := hw.endsBlank _ hcontents (fullScan_iff.mpr ⟨prev, hprev.2⟩)
  have hstable : ∀ m ∈ draftEntry P r ty clock prev, Py.Stable P .spaced m.2 := by
    intro m hm
    rcases mem_draftEntry hm with hm | ⟨s, hm⟩ <;> rw [hm]
    · exact hr
    · exact stable_str P .spaced s
  rw [hentry] at hline
  obtain ⟨hverified, hblank', hes⟩ :=
    (draft_draftEntry r ty clock prev).verified_append hblank hprev.2 hhash hstable hline
  have hfull : FullScan P (f.bytes ++ line) := fullScan_iff.mpr ⟨_, hverified⟩
  have hknown : ∀ {d' h o}, d'.contents = .ok f.bytes → Known P d' h o →
      Known P (appendLine P r clock w).2.disk h o := by
    rintro d' h o hd' ⟨g, hg, ht⟩
    rw [Disk.contents, hg] at hd'
    obtain hbytes : g.bytes = f.bytes := Except.ok.inj hd'
    rw [hbytes] at ht
    rw [hsnd]
    exact ⟨_, rfl, ht.append hfull hblank'⟩
  have hcontents' := (contents_validatedLastHash (P := P) clock.created w).trans hcontents
  refine ⟨⟨⟨?_, ?_, ?_⟩, hknown hcontents, ?_⟩, ?_⟩
  · rw [hsnd]
    intro b hb _
    obtain rfl := Except.ok.inj hb
    exact hblank'
  · obtain ⟨state, hstate, hall⟩ := hcoherent.tailState
    refine ⟨state, ?_, fun x hx => hknown hcontents' (hall x hx)⟩
    rw [hsnd]
    exact hstate
  · intro c hc
    rw [hsnd] at hc
    exact hknown hcontents' (hcoherent.cache c hc)
  · intro b hb
    obtain rfl := Except.ok.inj (hb.symm.trans hcontents)
    refine ⟨f.bytes ++ line, by rw [hsnd]; rfl, fun _ => hfull, fun _ es₀ hes₀ => ?_, fun hnot => ?_⟩
    · rw [hentry]
      exact hes es₀ hes₀
    · exact absurd (fullScan_iff.mpr ⟨prev, hprev.2⟩) hnot
  · have hlength : (f.bytes ++ line).length = a.offset := by
      rw [hoffset, hprev.1, List.length_append]
    rw [hsnd, ← hlength]
    exact ⟨_, rfl, tailAt_length hverified hblank'⟩

theorem advances_validatedLastHash (hw : Coherent P w) (created : Nat) :
    Advances P w (validatedLastHash P created w).2 [] where
  coherent := (validatedLastHash_coherent hw created).2
  known := known_validatedLastHash created
  grows := Disk.grows_of_eq (contents_validatedLastHash created w)

theorem Advances.refl (hw : Coherent P w) : Advances P w w [] where
  coherent := hw
  known := id
  grows := Disk.grows_of_eq rfl

theorem appendLine_advances_of_error (hw : Coherent P w) {e : Fault}
    (he : (appendLine P r clock w).1 = .error e) : Advances P w (appendLine P r clock w).2 [] := by
  rcases appendLine_error he with h | h <;> rw [h]
  · exact .refl hw
  · exact advances_validatedLastHash hw clock.created

theorem appendTx_advances (clock : Clock) (hw : Coherent P w) (hr : r.Stable) :
    Advances P w (appendTx P r clock w).2 (appendTx P r clock w).1.toOption.toList := by
  obtain ⟨e, he, hcall⟩ | ⟨a, v, ha, hv, hcall⟩ := appendTx_spec r clock w <;> rw [hcall]
  · exact appendLine_advances_of_error hw he
  · obtain ⟨hadv, hknown⟩ := appendLine_advances_of_ok hw hr ha
    have hfiles := sameFiles_writeVerifiedTailState hv
    refine ⟨hadv.coherent.writeVerifiedTailState hknown hv, fun h => ?_, ?_⟩
    · exact (Known.congr hfiles).mpr (hadv.known h)
    · exact hadv.grows.trans (Disk.grows_of_eq hfiles.contents_eq)

theorem crashTx_advances (clock : Clock) (hw : Coherent P w) (hr : r.Stable) (point : CrashPoint) :
    Advances P w (crashTx P r clock point w)
      ((appendLine P r clock w).1.toOption.map Appended.entry).toList := by
  rcases ha : appendLine P r clock w with ⟨e | a, v⟩
  · have he : (appendLine P r clock w).1 = .error e := by rw [ha]
    have herror := appendLine_advances_of_error hw he
    rw [ha] at herror
    rw [crashTx, ha]
    exact herror
  · have hok : (appendLine P r clock w).1 = .ok a := by rw [ha]
    obtain ⟨hadv, hknown⟩ := appendLine_advances_of_ok hw hr hok
    rw [ha] at hadv hknown
    rw [crashTx, ha]
    cases point with
    | afterLine => exact hadv
    | afterTailState =>
      simp only
      cases hwrite : writeTailState P v a.hash a.offset with
      | error e => exact hadv
      | ok v' =>
        have hfiles := sameFiles_writeTailState hwrite
        refine ⟨hadv.coherent.writeTailState hknown hwrite, fun h => ?_, ?_⟩
        · exact (Known.congr hfiles).mpr (hadv.known h)
        · exact hadv.grows.trans (Disk.grows_of_eq hfiles.contents_eq)

theorem crashTx_congr (hw : SameFiles w w')
    (hfst : (validatedLastHash P clock.created w).1 = (validatedLastHash P clock.created w').1)
    (hsnd : SameFiles (validatedLastHash P clock.created w).2
      (validatedLastHash P clock.created w').2) (point : CrashPoint) :
    SameFiles (crashTx P r clock point w) (crashTx P r clock point w') := by
  have hfiles : ∀ w : World,
      SameFiles (appendLine P r clock w).2 (crashTx P r clock point w) := by
    intro w
    unfold crashTx
    rcases ha : appendLine P r clock w with ⟨e | a, v⟩
    · exact .refl v
    · cases point with
      | afterLine => exact .refl v
      | afterTailState =>
        simp only
        cases hwrite : writeTailState P v a.hash a.offset with
        | error e => exact .refl v
        | ok v' => exact sameFiles_writeTailState hwrite
  obtain ⟨hj, hg⟩ := hfiles w
  exact (show SameFiles _ _ from ⟨hj.symm, hg.symm⟩).trans
    ((appendLine_congr hw hfst hsnd).2.trans (hfiles w'))

/-! ### Runs -/

def Step.Stable : Step P → Prop
  | .append _ r _ => r.Stable
  | .crash _ r _ _ => r.Stable
  | .evict _ => True

def System.Coherent (P : Platform) (s : System) : Prop :=
  ∀ p, Journal.Coherent P (s.world p)

theorem System.world_update_self (s : System) (p : Nat) (w : World) :
    (s.update p w).world p = w := by
  simp [System.world, System.update]

theorem System.world_update_of_ne (s : System) {p q : Nat} (hq : q ≠ p) (w : World) :
    (s.update p w).world q = ⟨w.disk, s.caches q⟩ := by
  simp [System.world, System.update, Function.update_of_ne hq]

theorem System.coherent_update {s : System} (hs : s.Coherent P) {p : Nat} {w' : World}
    {es : List (Members P.Float)} (h : Advances P (s.world p) w' es) :
    (s.update p w').Coherent P := by
  intro q
  by_cases hq : q = p
  · subst hq
    rw [s.world_update_self]
    exact h.coherent
  · rw [s.world_update_of_ne hq]
    exact ⟨h.coherent.endsBlank, h.coherent.tailState, fun c hc => h.known ((hs q).cache c hc)⟩

theorem step_advances {s : System} (hs : s.Coherent P) {a : Step P} (ha : a.Stable) :
    (step P s a).Coherent P ∧
      Disk.Grows P s.disk (step P s a).disk (writtenBy P s a).toList := by
  cases a with
  | append p r clock =>
    have h := appendTx_advances clock (hs p) ha
    exact ⟨System.coherent_update hs h, h.grows⟩
  | crash p r clock point =>
    have h := crashTx_advances clock (hs p) ha point
    refine ⟨System.coherent_update hs ⟨h.coherent.clearCache, h.known, h.grows⟩, h.grows⟩
  | evict p =>
    have h : Advances P (s.world p) ⟨s.disk, none⟩ [] :=
      ⟨(hs p).clearCache, id, Disk.grows_of_eq rfl⟩
    exact ⟨System.coherent_update hs h, h.grows⟩

theorem step_congr {s : System} (hs : s.Coherent P) (a : Step P) :
    result P s a = result P s.forget a ∧ (step P s.forget a).forget = (step P s a).forget := by
  have hcold : ∀ p clock, SameFiles (s.world p) (s.forget.world p) ∧
      (validatedLastHash P clock (s.world p)).1 =
        (validatedLastHash P clock (s.forget.world p)).1 ∧
      SameFiles (validatedLastHash P clock (s.world p)).2
        (validatedLastHash P clock (s.forget.world p)).2 := fun p clock =>
    ⟨sameFiles_forget _, (validatedLastHash_coherent (hs p) clock).1,
      sameFiles_validatedLastHash_forget clock _⟩
  have hforget : ∀ (p : Nat) {w w' : World}, SameFiles w w' →
      (s.forget.update p w').forget = (s.update p w).forget := by
    intro p w w' h
    have := h.forget_eq
    simp only [World.forget, World.mk.injEq, and_true] at this
    rw [System.forget, System.forget]
    exact congrArg (fun d => (⟨d, fun _ => none⟩ : System)) this
  cases a with
  | append p r clock =>
    obtain ⟨hw, hfst, hsnd⟩ := hcold p clock.created
    obtain ⟨hresult, hfiles⟩ := appendTx_congr (r := r) hw hfst hsnd
    exact ⟨congrArg some hresult, hforget p hfiles⟩
  | crash p r clock point =>
    obtain ⟨hw, hfst, hsnd⟩ := hcold p clock.created
    exact ⟨rfl, hforget p (crashTx_congr hw hfst hsnd point)⟩
  | evict p =>
    have hfiles : SameFiles ⟨s.disk, none⟩ ⟨s.forget.disk, none⟩ := ⟨rfl, rfl⟩
    exact ⟨rfl, hforget p hfiles⟩

theorem run_advances {steps : List (Step P)} {s : System} (hs : s.Coherent P)
    (hsteps : ∀ a ∈ steps, a.Stable) :
    Disk.Grows P s.disk (run P s steps).disk (written P s steps) := by
  induction steps generalizing s with
  | nil => exact Disk.grows_of_eq rfl
  | cons a steps ih =>
    obtain ⟨hs', hgrows⟩ := step_advances hs (hsteps a (by simp))
    exact hgrows.trans (ih hs' fun b hb => hsteps b (by simp [hb]))

theorem run_congr {steps : List (Step P)} {s c : System} (hs : s.Coherent P)
    (hc : c.forget = s.forget) (hsteps : ∀ a ∈ steps, a.Stable) :
    results P s steps = coldResults P c steps ∧
      (coldRun P c steps).forget = (run P s steps).forget := by
  induction steps generalizing s c with
  | nil => exact ⟨rfl, hc⟩
  | cons a steps ih =>
    obtain ⟨hresult, hstep⟩ := step_congr hs a
    rw [← hc] at hresult hstep
    obtain ⟨hresults, hrun⟩ := ih (step_advances hs (hsteps a (by simp))).1 hstep
      fun b hb => hsteps b (by simp [hb])
    refine ⟨?_, hrun⟩
    rw [results, coldResults, hresult, hresults]
    rfl

def System.Fresh (s : System) : Prop :=
  s.disk.tailState = none ∧ ∀ p, s.caches p = none

/-- A journal in order, or the genesis text that it would be created with, ends with a line break,
up to blanks. -/
def System.Terminated (P : Platform) (s : System) : Prop :=
  ∀ b, s.disk.contents = .ok b → FullScan P b → EndsBlank b

theorem System.coherent_of_fresh {s : System} (hs : s.Fresh) (hend : s.Terminated P) :
    s.Coherent P := by
  intro p
  refine ⟨hend, ⟨none, ?_, by simp⟩, fun c hc => ?_⟩
  · rw [readTailState]
    simp only [System.world, hs.1]
  · rw [System.world, hs.2 p] at hc
    cases hc

/-- JOURNAL-CACHE-DETERM-0.  Whatever processes append, lose their caches or die, every call returns
what it returns when it scans the journal from genesis, and the journal is the same; its entries are
those it had and, in order, those that were appended. -/
theorem run_eq_coldRun {s : System} (hfresh : s.Fresh) (hend : s.Terminated P)
    {steps : List (Step P)} (hsteps : ∀ a ∈ steps, a.Stable) :
    results P s steps = coldResults P s steps ∧
    (run P s steps).disk.journal = (coldRun P s steps).disk.journal ∧
    ∀ b, s.disk.contents = .ok b → ∃ b', (run P s steps).disk.contents = .ok b' ∧
      Grows P b b' (written P s steps) := by
  have hs := System.coherent_of_fresh hfresh hend
  obtain ⟨hresults, hrun⟩ := run_congr hs rfl hsteps
  refine ⟨hresults, ?_, run_advances hs hsteps⟩
  have := congrArg (fun s => s.disk.journal) hrun
  exact this.symm

theorem stable_demoRequest : demoRequest.Stable :=
  stable_of_plain reference .spaced
    (by simp [demoRequest, Request.stored, entryPayload, Value.Plain, PlainMembers, Key.isString])
    demoRequest.wf_stored

/-- Two processes append to a new journal; the first has lost its cache in between. -/
theorem run_eq_coldRun_of_initial :
    let s := System.initial none
    let steps : List (Step reference) := [.append 0 demoRequest demoClock, .evict 0,
      .append 1 demoRequest demoClock, .append 0 demoRequest demoClock]
    results reference s steps = coldResults reference s steps ∧
    (run reference s steps).disk.journal = (coldRun reference s steps).disk.journal ∧
    ∀ b, s.disk.contents = .ok b → ∃ b', (run reference s steps).disk.contents = .ok b' ∧
      Grows reference b b' (written reference s steps) := by
  refine run_eq_coldRun ⟨rfl, fun _ => rfl⟩ (fun b hb _ => ?_) (by simp [Step.Stable,
    stable_demoRequest])
  obtain rfl := Except.ok.inj hb
  exact ⟨[], rfl, rfl⟩

/-! ### Keys that are sorted as numbers -/

/-- A call of `append_tx` with the payload `{"m": {9: 1, 10: 2}}`. -/
def keyedRequest : Request reference where
  txType := str "demo"
  payload := ⟨[(.str (str "m"), .dict [(.int 9, .int 1), (.int 10, .int 2)])],
    by simp [Value.WF, WFMembers]⟩
  txId := some (str "T1")
  tenantContext := []

def keyedSteps : List (Step reference) :=
  [.append 0 keyedRequest demoClock, .append 0 demoRequest demoClock]

theorem isOk_results_keyedSteps : (results reference (System.initial none) keyedSteps).map
    (Option.map Except.isOk) = [some true, some true] := by
  decide +kernel

theorem isOk_coldResults_keyedSteps : (coldResults reference (System.initial none) keyedSteps).map
    (Option.map Except.isOk) = [some true, some false] := by
  decide +kernel

/-- The keys 9 and 10 are hashed in this order, and read back as strings, whose order is the other:
the next append goes through with the tail that is remembered, and fails without. -/
theorem not_results_eq_coldResults : ¬ ∀ steps : List (Step reference),
    results reference (System.initial none) steps =
      coldResults reference (System.initial none) steps := by
  intro h
  have hcold := isOk_coldResults_keyedSteps
  rw [← h keyedSteps, isOk_results_keyedSteps] at hcold
  exact absurd hcold (by decide)

end Adaad.Journal
