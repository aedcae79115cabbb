import Adaad.Journal.Equiv.Verify
import Adaad.Ledger.Equiv.Entry

/-!
# What `append_tx` does to a journal

The new entry is chained to the tail that the call found, by a hash over the sorted keys of the
entry in memory.  What the next reader finds is a line of text.

`extends_iff` says when the two agree: the tail that was found is the tail of the journal, the last
line of the journal is blank, and the payload is plain data.
-/

namespace Adaad.Journal

open Py

variable {P : Platform}

/-! ### What a call leaves alone -/

/-- The call changed neither the journal nor the genesis file. -/
def SameFiles (w w' : World) : Prop :=
  w'.disk.journal = w.disk.journal ∧ w'.disk.genesis = w.disk.genesis

theorem SameFiles.refl (w : World) : SameFiles w w := ⟨rfl, rfl⟩

theorem SameFiles.trans {w w' w'' : World} (h : SameFiles w w') (h' : SameFiles w' w'') :
    SameFiles w w'' :=
  ⟨h'.1.trans h.1, h'.2.trans h.2⟩

theorem sameFiles_writeVerifiedTailState {w w' : World} {h : Str} {o : Nat}
    (hw : writeVerifiedTailState P w h o = .ok w') : SameFiles w w' := by
  obtain ⟨w₁, hw₁, hw⟩ := bind_eq_ok.mp hw
  obtain ⟨b, -, hw₁⟩ := bind_eq_ok.mp hw₁
  obtain rfl := Except.ok.inj hw₁
  obtain rfl := Except.ok.inj hw
  exact ⟨rfl, rfl⟩

theorem sameFiles_resumeVerifiedTail (w : World) (f : File) (p : TailPoint) :
    SameFiles w (resumeVerifiedTail P w f p).2 := by
  unfold resumeVerifiedTail
  split_ifs
  · exact .refl w
  · exact ⟨rfl, rfl⟩
  · exact .refl w
  · split
    · exact .refl w
    · split
      · exact .refl w
      · next hw => exact sameFiles_writeVerifiedTailState hw

theorem sameFiles_resumeTails (f : File) (ps : List TailPoint) (w : World) :
    SameFiles w (resumeTails P f w ps).2 := by
  induction ps generalizing w with
  | nil => exact .refl w
  | cons p ps ih =>
    have hp := sameFiles_resumeVerifiedTail (P := P) w f p
    rw [resumeTails]
    rcases hr : resumeVerifiedTail P w f p with ⟨(m | e) | (_ | tail), w'⟩ <;> rw [hr] at hp
    · exact hp.trans ((show SameFiles w' { w' with cache := none } from ⟨rfl, rfl⟩).trans (ih _))
    · exact hp
    · exact hp.trans (ih w')
    · exact hp

theorem sameFiles_rescan (w : World) (f : File) : SameFiles w (rescan P w f).2 := by
  unfold rescan
  split
  · exact .refl w
  · split
    · exact .refl w
    · next hw => exact sameFiles_writeVerifiedTailState hw

theorem ensureJournal_spec {now : Nat} {d d' : Disk} {f : File}
    (h : ensureJournal now d = .ok (f, d')) :
    d'.journal = some f ∧ d'.genesis = d.genesis ∧ d'.tailState = d.tailState := by
  unfold ensureJournal at h
  cases hj : d.journal with
  | some g =>
    rw [hj] at h
    obtain ⟨rfl, rfl⟩ := Prod.mk.inj (Except.ok.inj h)
    exact ⟨hj, rfl, rfl⟩
  | none =>
    rw [hj] at h
    obtain ⟨b, -, h⟩ := bind_eq_ok.mp h
    obtain ⟨rfl, rfl⟩ := Prod.mk.inj (Except.ok.inj h)
    exact ⟨rfl, rfl, rfl⟩

theorem sameFiles_validatedLastHash {created : Nat} {w : World} {f : File} {d : Disk}
    (hf : ensureJournal created w.disk = .ok (f, d)) :
    SameFiles { w with disk := d } (validatedLastHash P created w).2 := by
  rw [validatedLastHash, hf]
  simp only
  cases readTailState P d with
  | error e => exact .refl _
  | ok state =>
    have hresume := sameFiles_resumeTails (P := P) f (tailPoints w.cache state) { w with disk := d }
    simp only
    rcases hr : resumeTails P f { w with disk := d } (tailPoints w.cache state)
      with ⟨e | _ | tail, w'⟩ <;> rw [hr] at hresume
    · exact hresume
    · exact hresume.trans (sameFiles_rescan w' f)
    · exact hresume

/-! ### The tail that a call finds -/

variable (P) in
/-- The first remembered tail that is used, if there is one, is the tail of the bytes before its
offset, which are a chain from genesis and share no line with the rest. -/
def Aligned (f : File) : List TailPoint → Prop
  | [] => True
  | p :: ps =>
    match attempt P f p with
    | .ok (some _) => Verified P (f.bytes.take p.offset) p.hash ∧
        Separate (f.bytes.take p.offset) (f.bytes.drop p.offset)
    | .ok none => Aligned f ps
    | .error (.integrity _) => Aligned f ps
    | .error (.raised _) => True

theorem verified_iff_of_used {f : File} {p : TailPoint} {h : Str} {n : Nat}
    (hused : attempt P f p = .ok (some (h, n))) :
    Verified P f.bytes h ↔ Verified P (f.bytes.take p.offset) p.hash ∧
      Separate (f.bytes.take p.offset) (f.bytes.drop p.offset) := by
  obtain ⟨-, es₂, hes₂, hvalid₂, rfl⟩ := attempt_eq_ok_some hused
  have hsplit : f.bytes.take p.offset ++ f.bytes.drop p.offset = f.bytes :=
    List.take_append_drop _ _
  constructor
  · rintro ⟨es, hes, hvalid, htail⟩
    rw [← hsplit] at hes
    obtain ⟨es₁, hes₁, rfl, hsep⟩ := exists_entries_left hes hes₂
    obtain ⟨hvalid₁, hstart⟩ := ((entryFormat P).valid_append_iff_of_valid hvalid₂).mp hvalid
    refine ⟨⟨es₁, hes₁, hvalid₁, ?_⟩, hsep⟩
    rcases hstart with hstart | rfl
    · exact hstart
    · rwa [List.append_nil] at htail
  · rintro ⟨⟨es₁, hes₁, hvalid₁, htail⟩, hsep⟩
    have hes := entries_append_of_separate hsep hes₁ hes₂
    rw [hsplit] at hes
    refine ⟨es₁ ++ es₂, hes, ((entryFormat P).valid_append_iff_of_valid hvalid₂).mpr
      ⟨hvalid₁, .inl htail⟩, ?_⟩
    rw [(entryFormat P).tail_append, htail]

theorem resumeTails_verified_iff {f : File} {ps : List TailPoint} {w : World} {h : Str} {n : Nat}
    (hr : (match resumeTails P f w ps with
        | (.error e, w) => (.error e, w)
        | (.ok (some tail), w) => (.ok tail, w)
        | (.ok none, w) => rescan P w f : Except Fault (Str × Nat) × World).1 = .ok (h, n)) :
    n = f.bytes.length ∧ (Verified P f.bytes h ↔ Aligned P f ps) := by
  induction ps generalizing w with
  | nil =>
    simp only [resumeTails, rescan_fst] at hr
    obtain ⟨hn, hv⟩ := scanChain_genesis_eq_ok_iff.mp hr
    exact ⟨hn, iff_of_true hv trivial⟩
  | cons p ps ih =>
    have hused : ∀ tail, (resumeVerifiedTail P w f p).1 = .ok (some tail) →
        attempt P f p = .ok (some tail) := fun tail h =>
      (resumeVerifiedTail_fst w f p).symm.trans h
    rw [resumeTails] at hr
    rw [Aligned, ← resumeVerifiedTail_fst w f p]
    rcases hres : resumeVerifiedTail P w f p with ⟨(m | e) | (_ | tail), w'⟩ <;>
      rw [hres] at hr hused
    · exact ih hr
    · cases hr
    · exact ih hr
    · obtain rfl := Except.ok.inj hr
      exact ⟨(attempt_eq_ok_some (hused _ rfl)).1, verified_iff_of_used (hused _ rfl)⟩

variable (P) in
/-- The tail that a call of this process finds is the tail of the journal `f`. -/
def FindsTail (f : File) (w : World) : Prop :=
  ∀ state, readTailState P w.disk = .ok state → Aligned P f (tailPoints w.cache state)

theorem validatedLastHash_verified_iff {created : Nat} {w : World} {f : File} {d : Disk} {h : Str}
    {n : Nat} (hf : ensureJournal created w.disk = .ok (f, d))
    (hr : (validatedLastHash P created w).1 = .ok (h, n)) :
    n = f.bytes.length ∧ (Verified P f.bytes h ↔ FindsTail P f w) := by
  rw [validatedLastHash, hf] at hr
  simp only at hr
  have hstate : readTailState P w.disk = readTailState P d := by
    rw [readTailState, readTailState, (ensureJournal_spec hf).2.2]
  rw [FindsTail, hstate]
  cases hs : readTailState P d with
  | error e =>
    rw [hs] at hr
    cases hr
  | ok state =>
    rw [hs] at hr
    simp only [Except.ok.injEq, forall_eq']
    exact resumeTails_verified_iff hr

/-! ### The entry -/

theorem wf_entryPayload (payload : Dict P.Float) (tenantContext : Members P.Float) :
    (Value.dict (entryPayload P payload.items tenantContext)).WF := by
  have hset : ∀ {kvs : Members P.Float}, (Value.dict kvs).WF → ∀ k s,
      (Value.dict (set kvs k (.str s))).WF := by
    intro kvs h k s
    rw [Value.WF] at h ⊢
    exact ⟨nodup_set h.1 k _, wfMembers_set h.2 k trivial⟩
  unfold entryPayload
  split_ifs
  · exact payload.wf
  · exact hset (hset payload.wf _ _) _ _

def Request.stored (r : Request P) : P.Obj :=
  .dict (entryPayload P r.payload.items r.tenantContext)

theorem Request.wf_stored (r : Request P) : r.stored.WF :=
  wf_entryPayload r.payload r.tenantContext

theorem mem_draftEntry {r : Request P} {ty : Str} {clock : Clock} {prev : Str}
    {m : Key P.Float × P.Obj} (hm : m ∈ draftEntry P r ty clock prev) :
    m.2 = r.stored ∨ ∃ s, m.2 = .str s := by
  simp only [draftEntry, List.mem_cons, List.not_mem_nil, or_false] at hm
  rcases hm with rfl | rfl | rfl | rfl | rfl
  · exact .inr ⟨_, rfl⟩
  · exact .inr ⟨_, rfl⟩
  · exact .inr ⟨_, rfl⟩
  · exact .inl rfl
  · exact .inr ⟨_, rfl⟩

theorem stored_mem_draftEntry (r : Request P) (ty : Str) (clock : Clock) (prev : Str) :
    (.str payloadKey, r.stored) ∈ draftEntry P r ty clock prev := by
  simp [draftEntry, Request.stored]

def entryKeys : List Str := [txKey, tsKey, typeKey, payloadKey, prevHashKey, hashKey]

theorem draft_draftEntry (r : Request P) (ty : Str) (clock : Clock) (prev : Str) :
    Draft prev (draftEntry P r ty clock prev) where
  isString m hm := by
    simp only [draftEntry, List.mem_cons, List.not_mem_nil, or_false] at hm
    rcases hm with rfl | rfl | rfl | rfl | rfl <;> rfl
  nodup := by
    have hkeys : (withHash (draftEntry P r ty clock prev) []).map Prod.fst =
        entryKeys.map Key.str := rfl
    rw [hkeys]
    exact List.Nodup.map (fun _ _ h => Key.str.inj h) (by decide)
  get_prev := ⟨(draftEntry P r ty clock prev).take 4, [], rfl⟩

/-! ### The call -/

theorem appendLine_eq_ok {r : Request P} {clock : Clock} {w : World} {f : File} {d : Disk}
    (hf : ensureJournal clock.created w.disk = .ok (f, d)) {a : Appended P}
    (h : (appendLine P r clock w).1 = .ok a) :
    ∃ ty prev offset line,
      (validatedLastHash P clock.created w).1 = .ok (prev, offset) ∧
      chainHash P .spaced prev (draftEntry P r ty clock prev) = .ok a.hash ∧
      a.entry = withHash (draftEntry P r ty clock prev) a.hash ∧
      encode (dumps P .spaced (.dict a.entry) ++ [lf]) = some line ∧
      a.offset = offset + line.length ∧
      (appendLine P r clock w).2 = { (validatedLastHash P clock.created w).2 with
        disk.journal := some ⟨f.bytes ++ line, clock.written⟩ } := by
  have hjournal : (validatedLastHash P clock.created w).2.disk.journal = some f :=
    (sameFiles_validatedLastHash hf).1.trans (ensureJournal_spec hf).1
  unfold appendLine at h ⊢
  cases hty : validateEventTypeForAgmStep P r.txType (get r.payload.items agmStepKey) with
  | error e =>
    rw [hty] at h
    exact nomatch h
  | ok ty =>
    rw [hty] at h
    simp only at h ⊢
    rcases hv : validatedLastHash P clock.created w with ⟨e | ⟨prev, offset⟩, w'⟩
    · rw [hv] at h
      exact nomatch h
    rw [hv] at h hjournal
    simp only at h ⊢
    cases hhash : hashLine P prev (draftEntry P r ty clock prev) with
    | error e =>
      rw [hhash] at h
      exact nomatch h
    | ok hash =>
      rw [hhash] at h
      simp only at h ⊢
      rw [(draft_draftEntry r ty clock prev).set_hash] at h ⊢
      obtain ⟨line, hline⟩ := Draft.exists_writeText hhash
      have hwrite : writeText (entryLine P (withHash (draftEntry P r ty clock prev) hash)) = .ok line :=
        writeText_of_encode hline
      rw [hwrite] at h ⊢
      obtain rfl := Except.ok.inj h
      refine ⟨ty, prev, offset, line, rfl, hhash, rfl, hline, rfl, ?_⟩
      simp only at hjournal ⊢
      rw [hjournal]
      rfl

theorem exists_ensureJournal {r : Request P} {clock : Clock} {w : World} {a : Appended P}
    (ha : (appendLine P r clock w).1 = .ok a) :
    ∃ f d, ensureJournal clock.created w.disk = .ok (f, d) := by
  cases hf : ensureJournal clock.created w.disk with
  | ok fd => exact ⟨fd.1, fd.2, rfl⟩
  | error e =>
    unfold appendLine at ha
    rw [validatedLastHash, hf] at ha
    cases hty : validateEventTypeForAgmStep P r.txType (get r.payload.items agmStepKey) with
    | error e =>
      rw [hty] at ha
      cases ha
    | ok ty =>
      rw [hty] at ha
      cases ha

theorem appendTx_spec (r : Request P) (clock : Clock) (w : World) :
    (∃ e, (appendLine P r clock w).1 = .error e ∧
      appendTx P r clock w = (.error e, (appendLine P r clock w).2)) ∨
    ∃ a w', (appendLine P r clock w).1 = .ok a ∧
      writeVerifiedTailState P (appendLine P r clock w).2 a.hash a.offset = .ok w' ∧
      appendTx P r clock w = (.ok a.entry, w') := by
  rcases ha : appendLine P r clock w with ⟨e | a, v⟩
  · refine .inl ⟨e, rfl, ?_⟩
    rw [appendTx, ha]
  · have hok : (appendLine P r clock w).1 = .ok a := by rw [ha]
    obtain ⟨f, d, hf⟩ := exists_ensureJournal hok
    obtain ⟨ty, prev, offset, line, -, hhash, -⟩ := appendLine_eq_ok hf hok
    obtain ⟨w', hw'⟩ := exists_writeVerifiedTailState (P := P) v (isAscii_of_chainHash P hhash)
      a.offset
    refine .inr ⟨a, w', rfl, hw', ?_⟩
    rw [appendTx, ha]
    simp only [hw']

/-- The journal `f'` is in order, and its entries are those of `f` and then `e`. -/
def Extends (P : Platform) (f f' : Bytes) (e : Members P.Float) : Prop :=
  FullScan P f' ∧ ∃ es, entries P f = some es ∧ entries P f' = some (es ++ [e])

/-- A call of `append_tx` that returns an entry extends the journal by that entry exactly when it
found the tail of the journal, the last line of the journal was blank, and the payload, as it is
stored, is plain data. -/
theorem extends_iff {r : Request P} {clock : Clock} {w : World} {f : File} {d : Disk}
    {e : Members P.Float} (hf : ensureJournal clock.created w.disk = .ok (f, d))
    (h : (appendTx P r clock w).1 = .ok e) :
    (∃ f', (appendTx P r clock w).2.disk.journal = some f' ∧ Extends P f.bytes f'.bytes e) ↔
      FindsTail P f w ∧ EndsBlank f.bytes ∧ r.stored.Plain := by
  obtain ⟨e', -, hcall⟩ | ⟨a, w', ha, hw', hcall⟩ := appendTx_spec r clock w
  · rw [hcall] at h
    exact nomatch h
  rw [hcall] at h ⊢
  obtain rfl : a.entry = e := Except.ok.inj h
  obtain ⟨ty, prev, offset, line, hv, hhash, hentry, hline, -, hsnd⟩ := appendLine_eq_ok hf ha
  have htail := (validatedLastHash_verified_iff hf hv).2
  have hdraft := draft_draftEntry r ty clock prev
  have hisLine := isLine_dumps .spaced (withHash (draftEntry P r ty clock prev) a.hash)
  have hplain : entryReadBack P (withHash (draftEntry P r ty clock prev) a.hash) =
      withHash (draftEntry P r ty clock prev) a.hash ↔ r.stored.Plain := by
    rw [hdraft.readBack_eq_iff fun m hm => by
      rcases mem_draftEntry hm with hm | ⟨s, hm⟩ <;> rw [hm]
      · exact r.wf_stored
      · trivial]
    constructor
    · exact fun hall => hall _ (stored_mem_draftEntry r ty clock prev)
    · intro hp m hm
      rcases mem_draftEntry hm with hm | ⟨s, hm⟩ <;> rw [hm]
      · exact hp
      · trivial
  rw [hentry] at hline
  rw [(sameFiles_writeVerifiedTailState hw').1, hsnd, hentry, ← htail, ← hplain]
  simp only [Option.some.injEq, exists_eq_left']
  constructor
  · rintro ⟨hfull, es, hes, hes'⟩
    obtain ⟨s, hs, -⟩ := entries_eq_some.mp hes
    have hblank := endsBlank_of_entries_append_line hs hisLine hline hes'
    obtain ⟨es₁, es₂, hes₁, hes₂, hsplit⟩ := (entries_append_of_blank hblank).mp hes'
    obtain rfl := Option.some.inj (hes.symm.trans hes₁)
    obtain rfl := Option.some.inj ((entries_line hisLine hline).symm.trans hes₂)
    have hback := List.singleton_inj.mp (List.append_cancel_left hsplit)
    obtain ⟨t, es', hes'', hvalid, -⟩ := fullScan_iff.mp hfull
    obtain rfl := Option.some.inj (hes'.symm.trans hes'')
    obtain ⟨hvalid, hlinks⟩ := (entryFormat P).valid_concat.mp hvalid
    refine ⟨⟨es, hes, hvalid, ?_⟩, hblank, hback.symm⟩
    rw [← hlinks.1]
    show prevHashOf P (withHash (draftEntry P r ty clock prev) a.hash) = prev
    exact hdraft.prevHashOf_withHash
  · rintro ⟨⟨es, hes, hvalid, htl⟩, hblank, hback⟩
    have hes' : entries P (f.bytes ++ line) =
        some (es ++ [entryReadBack P (withHash (draftEntry P r ty clock prev) a.hash)]) :=
      (entries_append_of_blank hblank).mpr ⟨es, _, hes, entries_line hisLine hline, rfl⟩
    have hlinks : (entryFormat P).Links prev
        (entryReadBack P (withHash (draftEntry P r ty clock prev) a.hash)) := by
      refine hdraft.links_iff_chainHash.mpr ⟨rfl, ?_⟩
      have hitems := congrArg (fun e => without e hashKey) hback
      rw [hdraft.readBack_withHash, hdraft.image_draft.without_withHash,
        hdraft.without_withHash] at hitems
      rw [hitems, hhash]
    rw [hback] at hes' hlinks
    have hvalid' : (entryFormat P).Valid genesisHash
        (es ++ [withHash (draftEntry P r ty clock prev) a.hash]) := by
      rw [(entryFormat P).valid_concat, htl]
      exact ⟨hvalid, hlinks⟩
    exact ⟨fullScan_iff.mpr ⟨_, _, hes', hvalid', rfl⟩, es, hes, hes'⟩

/-- The first entry of a journal extends it. -/
theorem extends_of_initial : ∃ e f',
    (appendTx reference demoRequest demoClock ⟨⟨none, none, none⟩, none⟩).1 = .ok e ∧
    (appendTx reference demoRequest demoClock ⟨⟨none, none, none⟩, none⟩).2.disk.journal = some f' ∧
    Extends reference [] f'.bytes e := by
  obtain ⟨e, he⟩ := exists_of_isOk (show (appendTx reference demoRequest demoClock
    ⟨⟨none, none, none⟩, none⟩).1.isOk = true by decide +kernel)
  obtain ⟨f', hf', hext⟩ := (extends_iff (f := ⟨[], 1⟩) (d := ⟨some ⟨[], 1⟩, none, none⟩) rfl he).mpr
    ⟨fun state hstate => by obtain rfl := Except.ok.inj hstate; trivial, ⟨[], rfl, rfl⟩,
      by simp [demoRequest, Request.stored, entryPayload, Value.Plain, PlainMembers, Key.isString]⟩
  exact ⟨e, f', he, hf', hext⟩

/-- The journal of one entry without its last line break. -/
def unterminatedJournal : File where
  bytes := (demoSystem.disk.journal.elim [] File.bytes).dropLast
  mtimeNs := 3

theorem verify_unterminatedJournal : (verifyJournalIntegrity reference 0
    ⟨⟨some unterminatedJournal, none, none⟩, none⟩).1 = .ok () := by
  decide +kernel

theorem entries_unterminatedJournal :
    let call := appendTx reference demoRequest demoClock
      ⟨⟨some unterminatedJournal, none, none⟩, none⟩
    (call.1.isOk, (entries reference (call.2.disk.journal.elim [] File.bytes)).isSome) =
      (true, false) := by
  decide +kernel

/-- The new entry shares a line with the last one where that has no line break. -/
theorem not_extends : ¬ ∀ (r : Request reference) (clock : Clock) (w : World) (f : File) (d : Disk)
    (e : Members reference.Float), ensureJournal clock.created w.disk = .ok (f, d) →
    (verifyJournalIntegrity reference clock.created w).1 = .ok () →
    (appendTx reference r clock w).1 = .ok e →
    ∃ f', (appendTx reference r clock w).2.disk.journal = some f' ∧
      Extends reference f.bytes f'.bytes e := by
  intro h
  obtain ⟨hok, hnone⟩ := Prod.mk.inj entries_unterminatedJournal
  obtain ⟨e, he⟩ := exists_of_isOk hok
  obtain ⟨f', hf', -, es, -, hes⟩ := h demoRequest demoClock
    ⟨⟨some unterminatedJournal, none, none⟩, none⟩ _ _ e rfl verify_unterminatedJournal he
  rw [hf', Option.elim_some, hes] at hnone
  exact Bool.noConfusion hnone

end Adaad.Journal
