import Adaad.Dorkllm.Equiv.MutationExecution
import Adaad.Py.Json.Equiv.InOrder

/-!
# What the verification of the execution ledger detects

A digest covers seven fields of its record, and the digest before it only where a record stands
before it.  So `verify_chain` takes a changed ledger exactly if it is a piece of the ledger whose
records are alike in what is digested, with new records signed after it (`passes_iff`); and it comes
to a `TypeError` in place of its own error at a digest that is not ASCII (`detects_iff_exposed`).
-/

namespace Adaad.MutationExecution

open Py Run

variable {P : Platform} {N : Type} {num : Numbers P N}

/-! ### What is digested -/

variable (num) in
def digested (r : ExecutionRecord N) : Members P.Float :=
  [(.str (str "record_id"), .str r.recordId),
    (.str (str "mutation_id"), .str r.mutationId),
    (.str (str "status"), .str r.status.value),
    (.str (str "blast_radius"), num.json r.blastRadius),
    (.str (str "impact_tier"), .str r.impactTier.value),
    (.str (str "timestamp"), num.json r.timestamp),
    (.str (str "prev_digest"), .str r.prevDigest)]

variable (num) in
def digestText (r : ExecutionRecord N) : Str :=
  (dumpsSortedAscii P .spaced (.dict (digested num r))).getD []

theorem computeHmac_eq (r : ExecutionRecord N) :
    computeHmac num r = hmacSha256 P hmacSecret ((encode (digestText num r)).getD []) := rfl

theorem ascii_computeHmac (r : ExecutionRecord N) : ∀ c ∈ computeHmac num r, c < 128 :=
  ascii_sha256 P _

theorem length_computeHmac (r : ExecutionRecord N) : (computeHmac num r).length = 64 :=
  P.length_sha256 _

def IsNumber : P.Obj → Prop
  | .bool _ => True
  | .int _ => True
  | .float _ => True
  | _ => False

theorem IsNumber.flat {v : P.Obj} (h : IsNumber v) : v.Flat := by
  cases v with
  | bool | int | float => trivial
  | none | str | list | tuple | dict => cases h

theorem IsNumber.mapStr_eq {v : P.Obj} (h : IsNumber v) (f : Str → Str) : v.mapStr f = v := by
  cases v with
  | bool | int | float => rfl
  | none | str | list | tuple | dict => cases h

variable (num) in
/-- The records are alike in their digests and in what these cover.  A pair of surrogates is
digested as the character that it stands for. -/
structure Alike (r s : ExecutionRecord N) : Prop where
  recordId : readAscii r.recordId = readAscii s.recordId
  mutationId : readAscii r.mutationId = readAscii s.mutationId
  status : r.status = s.status
  blastRadius : num.json r.blastRadius = num.json s.blastRadius
  impactTier : r.impactTier = s.impactTier
  timestamp : num.json r.timestamp = num.json s.timestamp
  prevDigest : readAscii r.prevDigest = readAscii s.prevDigest
  hmacDigest : r.hmacDigest = s.hmacDigest

theorem flatDict_digested (hjson : ∀ x, IsNumber (num.json x)) (r : ExecutionRecord N) :
    FlatDict (digested num r) := by
  have hnamed : NamedItems (digested num r) := .of_names
    [str "record_id", str "mutation_id", str "status", str "blast_radius", str "impact_tier",
      str "timestamp", str "prev_digest"] rfl (by decide) (by decide)
  refine hnamed.flatDict ?_
  simp only [digested, List.forall_mem_cons]
  exact ⟨trivial, trivial, trivial, (hjson _).flat, trivial, (hjson _).flat, trivial,
    fun _ h => absurd h List.not_mem_nil⟩

theorem ascii_status (s : ExecutionStatus) : readAscii s.value = s.value := by
  cases s <;> exact readAscii_of_ascii (by decide)

theorem ascii_tier (t : ImpactTier) : readAscii t.value = t.value := by
  cases t <;> exact readAscii_of_ascii (by decide)

theorem status_inj {s t : ExecutionStatus} (h : s.value = t.value) : s = t := by
  cases s <;> cases t <;> first | rfl | exact absurd h (by decide)

theorem tier_inj {s t : ImpactTier} (h : s.value = t.value) : s = t := by
  cases s <;> cases t <;> first | rfl | exact absurd h (by decide)

theorem alike_of_digestText_eq (hjson : ∀ x, IsNumber (num.json x)) {r s : ExecutionRecord N}
    (htext : digestText num r = digestText num s) (hdigest : r.hmacDigest = s.hmacDigest) :
    Alike num r s := by
  have hr := flatDict_digested hjson r
  have hs := flatDict_digested hjson s
  obtain ⟨t, ht⟩ := exists_dumpsSortedAscii (L := .spaced) hr.sortable
  obtain ⟨u, hu⟩ := exists_dumpsSortedAscii (L := .spaced) hs.sortable
  have htu : t = u := by
    unfold digestText at htext
    rw [ht, hu] at htext
    exact htext
  subst htu
  obtain ⟨e, he, hget⟩ := exists_reread_flat P hr
  obtain ⟨e', he', hget'⟩ := exists_reread_flat P hs
  have hee : e = e' := by
    rw [← loads_of_dumpsSortedAscii_eq P ht, loads_of_dumpsSortedAscii_eq P hu, he'] at he
    exact (Value.dict.inj (Option.some.inj he)).symm
  have hfield : ∀ k, (get (digested num r) k).map (Value.mapStr readAscii) =
      (get (digested num s) k).map (Value.mapStr readAscii) := fun k => by
    rw [← hget, ← hget', hee]
  have hnumber : ∀ {x y : N}, (num.json x).mapStr readAscii = (num.json y).mapStr readAscii →
      num.json x = num.json y := fun {x y} h => by
    rw [(hjson x).mapStr_eq, (hjson y).mapStr_eq] at h
    exact h
  exact {
    recordId := Value.str.inj (Option.some.inj (hfield (str "record_id")))
    mutationId := Value.str.inj (Option.some.inj (hfield (str "mutation_id")))
    status := by
      have h := Value.str.inj (Option.some.inj (hfield (str "status")))
      rw [ascii_status, ascii_status] at h
      exact status_inj h
    blastRadius := hnumber (Option.some.inj (hfield (str "blast_radius")))
    impactTier := by
      have h := Value.str.inj (Option.some.inj (hfield (str "impact_tier")))
      rw [ascii_tier, ascii_tier] at h
      exact tier_inj h
    timestamp := hnumber (Option.some.inj (hfield (str "timestamp")))
    prevDigest := Value.str.inj (Option.some.inj (hfield (str "prev_digest")))
    hmacDigest := hdigest }

theorem Alike.digestText_eq (hjson : ∀ x, IsNumber (num.json x)) {r s : ExecutionRecord N}
    (h : Alike num r s) : digestText num r = digestText num s := by
  have hitems : readItems (digested num r) = readItems (digested num s) := by
    simp only [readItems, digested, List.map_cons, List.map_nil, Value.mapStr, h.recordId,
      h.mutationId, h.status, h.blastRadius, h.impactTier, h.timestamp, h.prevDigest]
  unfold digestText
  rw [← dumpsSortedAscii_readItems P .spaced (flatDict_digested hjson r), hitems,
    dumpsSortedAscii_readItems P .spaced (flatDict_digested hjson s)]

/-! ### What the loop raises -/

theorem compareDigest_of_ascii {a b : Str} (ha : ∀ c ∈ a, c < 128) (hb : ∀ c ∈ b, c < 128) :
    compareDigest a b = .ok (decide (a = b)) := by
  unfold compareDigest
  rw [if_pos]
  rw [List.all_eq_true]
  exact fun c hc => decide_eq_true ((List.mem_append.mp hc).elim (ha c) (hb c))

theorem compareDigest_of_not_ascii {a : Str} (b : Str) (ha : ¬ ∀ c ∈ a, c < 128) :
    compareDigest a b = .error .typeError := by
  unfold compareDigest
  rw [if_neg]
  intro hall
  rw [List.all_eq_true] at hall
  exact ha fun c hc => of_decide_eq_true (hall c (List.mem_append_left _ hc))

variable (num) in
/-- The digest of the record is right, and it follows the one before it. -/
def Follows (before : Option Str) (r : ExecutionRecord N) : Prop :=
  r.hmacDigest = computeHmac num r ∧ ∀ d ∈ before, r.prevDigest = d

theorem all_eq_true_iff {before : Option Str} {s : Str} :
    before.all (s = ·) = true ↔ ∀ d ∈ before, s = d := by
  cases before with
  | none => exact iff_of_true rfl fun d hd => absurd hd (by rintro ⟨⟩)
  | some d =>
    show decide (s = d) = true ↔ _
    rw [decide_eq_true_iff]
    constructor
    · rintro rfl d' hd'
      exact Option.some.inj hd'
    · exact fun h => h d rfl

theorem verifyFrom_cons {before : Option Str} {r : ExecutionRecord N}
    {rs : List (ExecutionRecord N)} : verifyFrom num before (r :: rs) = true ↔
      Follows num before r ∧ verifyFrom num (some r.hmacDigest) rs = true := by
  rw [verifyFrom, Bool.and_eq_true, Bool.and_eq_true, decide_eq_true_iff, all_eq_true_iff]
  exact Iff.rfl

theorem verifyRecords_cons (num : Numbers P N) (i : Nat) (before : Option Str) (r : ExecutionRecord N)
    (rs : List (ExecutionRecord N)) :
    (Follows num before r ∧ verifyRecords num i before (r :: rs) =
      verifyRecords num (i + 1) (some r.hmacDigest) rs) ∨
    (¬ Follows num before r ∧ (¬ ∀ c ∈ r.hmacDigest, c < 128) ∧
      verifyRecords num i before (r :: rs) = .error .typeError) ∨
    (¬ Follows num before r ∧ (∀ c ∈ r.hmacDigest, c < 128) ∧
      ∃ message, verifyRecords num i before (r :: rs) = .error (.chainViolation message)) := by
  by_cases hascii : ∀ c ∈ r.hmacDigest, c < 128
  · have hcompare := compareDigest_of_ascii hascii
      (ascii_computeHmac r : ∀ c ∈ computeHmac num r, c < 128)
    by_cases hdigest : r.hmacDigest = computeHmac num r
    · rw [decide_eq_true hdigest] at hcompare
      by_cases hprev : before.all (r.prevDigest = ·) = true
      · left
        refine ⟨⟨hdigest, all_eq_true_iff.mp hprev⟩, ?_⟩
        rw [verifyRecords, hcompare]
        exact if_pos hprev
      · right; right
        refine ⟨fun h => hprev (all_eq_true_iff.mpr h.2), hascii, ?_⟩
        rw [verifyRecords, hcompare]
        dsimp only
        rw [if_neg hprev]
        exact ⟨_, rfl⟩
    · rw [decide_eq_false hdigest] at hcompare
      right; right
      refine ⟨fun h => hdigest h.1, hascii, ?_⟩
      rw [verifyRecords, hcompare]
      exact ⟨_, rfl⟩
  · right; left
    refine ⟨fun h => hascii ?_, hascii, ?_⟩
    · rw [h.1]
      exact ascii_computeHmac r
    · rw [verifyRecords, compareDigest_of_not_ascii _ hascii]

theorem verifyRecords_eq_ok {i : Nat} {before : Option Str} {rs : List (ExecutionRecord N)} :
    verifyRecords num i before rs = .ok true ↔ verifyFrom num before rs = true := by
  induction rs generalizing i before with
  | nil => exact iff_of_true rfl rfl
  | cons r rs ih =>
    rw [verifyFrom_cons]
    rcases verifyRecords_cons num i before r rs with ⟨hfollows, heq⟩ | ⟨hnot, -, heq⟩ |
      ⟨hnot, -, message, heq⟩
    · rw [heq, ih, and_iff_right hfollows]
    · exact iff_of_false (by rw [heq]; rintro ⟨⟩) fun h => hnot h.1
    · exact iff_of_false (by rw [heq]; rintro ⟨⟩) fun h => hnot h.1

theorem verifyRecords_violation_iff {i : Nat} {before : Option Str}
    {rs : List (ExecutionRecord N)} :
    (∃ message, verifyRecords num i before rs = .error (.chainViolation message)) ↔
      ¬ verifyFrom num before rs = true ∧ ∀ as r bs, rs = as ++ r :: bs →
        verifyFrom num before as = true → ∀ c ∈ r.hmacDigest, c < 128 := by
  induction rs generalizing i before with
  | nil =>
    refine iff_of_false ?_ fun h => h.1 rfl
    rintro ⟨message, h⟩
    cases h
  | cons r rs ih =>
    rcases verifyRecords_cons num i before r rs with ⟨hfollows, heq⟩ |
      ⟨hnot, hascii, heq⟩ | ⟨hnot, hascii, message, heq⟩
    · rw [heq, ih, verifyFrom_cons, and_iff_right hfollows]
      refine and_congr_right fun _ => ?_
      constructor
      · rintro h as r' bs hsplit has
        cases as with
        | nil =>
          obtain ⟨rfl, -⟩ := List.cons.inj hsplit
          rw [hfollows.1]
          exact ascii_computeHmac r
        | cons a as =>
          obtain ⟨rfl, rfl⟩ := List.cons.inj hsplit
          exact h as r' bs rfl (verifyFrom_cons.mp has).2
      · intro h as r' bs hsplit has
        exact h (r :: as) r' bs (congrArg (r :: ·) hsplit) (verifyFrom_cons.mpr ⟨hfollows, has⟩)
    · refine iff_of_false ?_ fun h => hascii (h.2 [] r rs rfl rfl)
      rintro ⟨message, h⟩
      rw [heq] at h
      cases h
    · refine iff_of_true ⟨message, heq⟩ ⟨fun h => hnot (verifyFrom_cons.mp h).1, ?_⟩
      intro as r' bs hsplit has
      cases as with
      | nil =>
        obtain ⟨rfl, -⟩ := List.cons.inj hsplit
        exact hascii
      | cons a as =>
        obtain ⟨rfl, rfl⟩ := List.cons.inj hsplit
        exact absurd (verifyFrom_cons.mp has).1 hnot

/-! ### Chains -/

theorem links_iff {h : Str} {r : ExecutionRecord N} :
    (chainFormat num).Links h r ↔ Follows num (some h) r := by
  constructor
  · rintro ⟨rfl, hdigest⟩
    refine ⟨(Option.some.inj hdigest).symm, fun d hd => ?_⟩
    exact Option.some.inj hd
  · rintro ⟨hdigest, hprev⟩
    obtain rfl := hprev h rfl
    exact ⟨rfl, congrArg some hdigest.symm⟩

theorem verifyFrom_some_iff {h : Str} {rs : List (ExecutionRecord N)} :
    verifyFrom num (some h) rs = true ↔ (chainFormat num).Valid h rs := by
  induction rs generalizing h with
  | nil => exact iff_of_true rfl trivial
  | cons r rs ih => rw [verifyFrom_cons, ih, Chain.Format.valid_cons, links_iff]; rfl

theorem verifyFrom_none_iff {rs : List (ExecutionRecord N)} :
    verifyFrom num none rs = true ↔ ∃ h, (chainFormat num).Valid h rs := by
  cases rs with
  | nil => exact iff_of_true rfl ⟨[], trivial⟩
  | cons r rs =>
    rw [verifyFrom_cons, verifyFrom_some_iff]
    constructor
    · rintro ⟨hfollows, hrest⟩
      exact ⟨r.prevDigest, links_iff.mpr ⟨hfollows.1, fun d hd => Option.some.inj hd⟩, hrest⟩
    · rintro ⟨h, hlinks, hrest⟩
      exact ⟨⟨(links_iff.mp hlinks).1, fun d hd => absurd hd (by rintro ⟨⟩)⟩, hrest⟩

theorem signed_of_valid {h : Str} {rs : List (ExecutionRecord N)}
    (hvalid : (chainFormat num).Valid h rs) {r : ExecutionRecord N} (hr : r ∈ rs) :
    r.hmacDigest = computeHmac num r := by
  induction rs generalizing h with
  | nil => cases hr
  | cons r' rs ih =>
    rcases List.mem_cons.mp hr with rfl | hr
    · exact (links_iff.mp hvalid.1).1
    · exact ih hvalid.2 hr

theorem ascii_prevDigest_of_valid {h : Str} {rs : List (ExecutionRecord N)}
    (hh : ∀ c ∈ h, c < 128) (hvalid : (chainFormat num).Valid h rs) {r : ExecutionRecord N}
    (hr : r ∈ rs) : ∀ c ∈ r.prevDigest, c < 128 := by
  induction rs generalizing h with
  | nil => cases hr
  | cons r' rs ih =>
    obtain ⟨hsigned, hprev⟩ := links_iff.mp hvalid.1
    rcases List.mem_cons.mp hr with rfl | hr
    · rw [hprev h rfl]
      exact hh
    · refine ih ?_ hvalid.2 hr
      show ∀ c ∈ r'.hmacDigest, c < 128
      rw [hsigned]
      exact ascii_computeHmac r'

/-! ### Changed ledgers -/

variable (num) in
/-- What `verify_chain` takes for the ledger: a piece of it whose records are alike, and after them
records that were not in it and are signed with the key of the engine. -/
def Passes (ledger tampered : List (ExecutionRecord N)) : Prop :=
  ∃ kept signed piece start, tampered = kept ++ signed ∧ piece <:+: ledger ∧
    List.Forall₂ (Alike num) kept piece ∧
    (∀ r ∈ kept.getLast?, start = r.hmacDigest) ∧ (chainFormat num).Valid start signed ∧
    ∀ r ∈ signed, r.hmacDigest ∉ ledger.map ExecutionRecord.hmacDigest

variable (num) in
/-- A changed record does not have the digest of one in the ledger with another text. -/
def CollisionFree (ledger tampered : List (ExecutionRecord N)) : Prop :=
  ∀ r ∈ tampered, ∀ s ∈ ledger, computeHmac num r = computeHmac num s →
    digestText num r = digestText num s

theorem valid_of_alike {h : Str} {rs ss : List (ExecutionRecord N)}
    (hjson : ∀ x, IsNumber (num.json x)) (hh : ∀ c ∈ h, c < 128)
    (hvalid : (chainFormat num).Valid h ss) (hall : List.Forall₂ (Alike num) rs ss) :
    (chainFormat num).Valid h rs := by
  induction hall generalizing h with
  | nil => trivial
  | @cons r s rs ss halike _ ih =>
    obtain ⟨hlinks, hrest⟩ := (chainFormat num).valid_cons.mp hvalid
    obtain ⟨hsigned, hprev⟩ := links_iff.mp hlinks
    have hprevious : readAscii r.prevDigest = h := by
      rw [halike.prevDigest, hprev h rfl, readAscii_of_ascii hh]
    have hdigest : r.hmacDigest = computeHmac num r := by
      rw [halike.hmacDigest, hsigned, computeHmac_eq, computeHmac_eq, halike.digestText_eq hjson]
    refine ⟨links_iff.mpr ⟨hdigest, ?_⟩, ?_⟩
    · rintro d ⟨⟩
      exact eq_of_readAscii_eq hprevious hh
    · have hnext : s.hmacDigest = r.hmacDigest := halike.hmacDigest.symm
      have hrest : (chainFormat num).Valid s.hmacDigest ss := hrest
      rw [hnext] at hrest
      refine ih ?_ hrest
      show ∀ c ∈ r.hmacDigest, c < 128
      rw [hdigest]
      exact ascii_computeHmac r

theorem Passes.verified {ledger tampered : List (ExecutionRecord N)}
    (hjson : ∀ x, IsNumber (num.json x))
    (hledger : (chainFormat num).Valid (str "GENESIS") ledger) (h : Passes num ledger tampered) :
    verifyFrom num none tampered = true := by
  obtain ⟨kept, signed, piece, start, rfl, ⟨before, after, rfl⟩, hall, hstart, hsigned, -⟩ := h
  rw [List.append_assoc] at hledger
  obtain ⟨hbefore, hrest⟩ := (chainFormat num).valid_append.mp hledger
  have hpiece := ((chainFormat num).valid_append.mp hrest).1
  have hascii : ∀ c ∈ (chainFormat num).tail (str "GENESIS") before, c < 128 := by
    rcases List.eq_nil_or_concat before with rfl | ⟨rs, r, rfl⟩
    · exact (by decide : ∀ c ∈ str "GENESIS", c < 128)
    · rw [List.concat_eq_append] at hbefore ⊢
      rw [Chain.Format.tail_concat]
      show ∀ c ∈ r.hmacDigest, c < 128
      rw [signed_of_valid hbefore (List.mem_append_right _ List.mem_cons_self)]
      exact ascii_computeHmac r
  have hkept := valid_of_alike hjson hascii hpiece hall
  rw [verifyFrom_none_iff]
  rcases List.eq_nil_or_concat kept with rfl | ⟨rs, r, rfl⟩
  · exact ⟨start, hsigned⟩
  · refine ⟨_, (chainFormat num).valid_append.mpr ⟨hkept, ?_⟩⟩
    rw [List.concat_eq_append] at hstart ⊢
    rw [Chain.Format.tail_concat]
    have heq : start = r.hmacDigest := hstart r (by rw [List.getLast?_concat]; rfl)
    rw [heq] at hsigned
    exact hsigned

theorem passes_of_valid {ledger tampered : List (ExecutionRecord N)} {h : Str}
    (hjson : ∀ x, IsNumber (num.json x))
    (hledger : (chainFormat num).Valid (str "GENESIS") ledger)
    (hfree : CollisionFree num ledger tampered)
    (hvalid : (chainFormat num).Valid h tampered) : Passes num ledger tampered := by
  induction tampered using List.reverseRecOn with
  | nil => exact ⟨[], [], [], h, rfl, List.nil_infix, .nil, fun r hr => absurd hr (by rintro ⟨⟩),
      trivial, fun r hr => absurd hr List.not_mem_nil⟩
  | append_singleton rs r ih =>
    obtain ⟨hrs, hr⟩ := (chainFormat num).valid_concat.mp hvalid
    by_cases hknown : r.hmacDigest ∈ ledger.map ExecutionRecord.hmacDigest
    · obtain ⟨s, hs, heq⟩ := List.mem_map.mp hknown
      have hsame : ∀ x ∈ rs ++ [r], ∀ y ∈ ledger, x.hmacDigest = y.hmacDigest →
          Alike num x y ∧ x.prevDigest = y.prevDigest := fun x hx y hy hxy => by
        have hx' := signed_of_valid hvalid hx
        have hy' := signed_of_valid hledger hy
        have halike := alike_of_digestText_eq hjson
          (hfree x hx y hy (hx'.symm.trans (hxy.trans hy'))) hxy
        have hascii := ascii_prevDigest_of_valid (by decide) hledger hy
        refine ⟨halike, eq_of_readAscii_eq ?_ hascii⟩
        rw [← readAscii_of_ascii hascii]
        exact halike.prevDigest
      have hgenesis : ∀ x ∈ rs, x.hmacDigest ≠ str "GENESIS" := fun x hx hgenesis => by
        have hlength := congrArg List.length ((signed_of_valid hrs hx).symm.trans hgenesis)
        rw [length_computeHmac] at hlength
        exact absurd hlength (by decide)
      obtain ⟨as, bs, rfl⟩ := List.append_of_mem hs
      obtain ⟨piece, ⟨before, hpiece⟩, hall⟩ :=
        (chainFormat num).exists_suffix_of_valid hledger hvalid hsame hgenesis heq.symm
      refine ⟨rs ++ [r], [], piece, r.hmacDigest, (List.append_nil _).symm, ⟨before, bs, ?_⟩,
        hall, ?_, trivial, fun r hr => absurd hr List.not_mem_nil⟩
      · rw [hpiece, List.append_assoc]
        rfl
      · intro r' hr'
        rw [List.getLast?_concat] at hr'
        rw [Option.some.inj hr']
    · obtain ⟨kept, signed, piece, start, rfl, hpiece, hall, -, -, hnew⟩ :=
        ih (fun x hx => hfree x (List.mem_append_left _ hx)) hrs
      rw [List.append_assoc] at hvalid
      refine ⟨kept, signed ++ [r], piece, (chainFormat num).tail h kept, List.append_assoc _ _ _,
        hpiece, hall, fun q hq => ?_, ((chainFormat num).valid_append.mp hvalid).2, ?_⟩
      · rcases List.eq_nil_or_concat kept with rfl | ⟨qs, q', rfl⟩
        · cases hq
        · rw [List.concat_eq_append, List.getLast?_concat] at hq
          rw [List.concat_eq_append, Chain.Format.tail_concat]
          exact congrArg ExecutionRecord.hmacDigest (Option.some.inj hq)
      · intro q hq
        rcases List.mem_append.mp hq with hq | hq
        · exact hnew q hq
        · rw [List.mem_singleton.mp hq]
          exact hknown

theorem passes_iff {ledger tampered : List (ExecutionRecord N)}
    (hjson : ∀ x, IsNumber (num.json x))
    (hledger : (chainFormat num).Valid (str "GENESIS") ledger)
    (hfree : CollisionFree num ledger tampered) :
    verifyFrom num none tampered = true ↔ Passes num ledger tampered := by
  constructor
  · intro h
    obtain ⟨start, hvalid⟩ := verifyFrom_none_iff.mp h
    exact passes_of_valid hjson hledger hfree hvalid
  · exact Passes.verified hjson hledger

/-! ### Tamper evidence -/

variable (num) in
/-- The ledger is verified, and what it has become is not, unless it just lacks its last records. -/
def Detects (ledger tampered : List (ExecutionRecord N)) : Prop :=
  verifyRecords num 0 none ledger = .ok true ∧
    (¬ tampered <+: ledger →
      ∃ message, verifyRecords num 0 none tampered = .error (.chainViolation message))

variable (num) in
/-- The changed ledger does not pass, and after records that do there is no digest that is not
ASCII. -/
def Exposed (ledger tampered : List (ExecutionRecord N)) : Prop :=
  ¬ Passes num ledger tampered ∧ ∀ as r bs, tampered = as ++ r :: bs → Passes num ledger as →
    ∀ c ∈ r.hmacDigest, c < 128

theorem valid_run (num : Numbers P N) (calls : List (Call N)) :
    (chainFormat num).Valid (str "GENESIS") (run (step num) (newEngine N) calls).ledger := by
  have hnew : (chainFormat num).Valid (str "GENESIS") (newEngine N).ledger := trivial
  exact (always_of_forall_step
    (I := fun e : Engine N => (chainFormat num).Valid (str "GENESIS") e.ledger)
    (fun _ call h => valid_step call h) hnew calls).last

theorem violation_iff_exposed {ledger tampered : List (ExecutionRecord N)}
    (hjson : ∀ x, IsNumber (num.json x))
    (hledger : (chainFormat num).Valid (str "GENESIS") ledger)
    (hfree : CollisionFree num ledger tampered) :
    (∃ message, verifyRecords num 0 none tampered = .error (.chainViolation message)) ↔
      Exposed num ledger tampered := by
  rw [verifyRecords_violation_iff, passes_iff hjson hledger hfree]
  refine and_congr_right fun _ => forall_congr' fun as => forall_congr' fun r =>
    forall_congr' fun bs => imp_congr_right fun hsplit => ?_
  rw [passes_iff hjson hledger fun x hx => hfree x (hsplit ▸ List.mem_append_left _ hx)]

/-- The ledger of every run is verified, and what it has become is rejected exactly if it is
exposed. -/
theorem detects_iff_exposed (num : Numbers P N) (hjson : ∀ x, IsNumber (num.json x))
    (calls : List (Call N)) (tampered : List (ExecutionRecord N))
    (hfree : CollisionFree num (run (step num) (newEngine N) calls).ledger tampered) :
    Detects num (run (step num) (newEngine N) calls).ledger tampered ↔
      (¬ tampered <+: (run (step num) (newEngine N) calls).ledger →
        Exposed num (run (step num) (newEngine N) calls).ledger tampered) := by
  have hledger := valid_run num calls
  have hverified : verifyRecords num 0 none (run (step num) (newEngine N) calls).ledger =
      .ok true := verifyRecords_eq_ok.mpr (verifyFrom_none_iff.mpr ⟨_, hledger⟩)
  rw [← violation_iff_exposed hjson hledger hfree]
  exact and_iff_right hverified

/-! ### A token that is exchanged -/

def retoken (r : ExecutionRecord N) : ExecutionRecord N :=
  { r with mrpTokenId := str "other" }

theorem alike_retoken (r : ExecutionRecord N) : Alike num (retoken r) r :=
  ⟨rfl, rfl, rfl, rfl, rfl, rfl, rfl, rfl⟩

theorem passes_retoken (ledger : List (ExecutionRecord N)) :
    Passes num ledger (ledger.map retoken) := by
  refine ⟨ledger.map retoken, [], ledger, ((ledger.map retoken).getLast?.elim [] (·.hmacDigest)),
    (List.append_nil _).symm, List.infix_rfl, ?_, ?_, trivial,
    fun r hr => absurd hr List.not_mem_nil⟩
  · rw [List.forall₂_map_left_iff]
    exact List.forall₂_same.mpr fun r _ => alike_retoken r
  · intro r hr
    rw [hr]
    rfl

theorem collisionFree_retoken (r : ExecutionRecord N) : CollisionFree num [r] [retoken r] := by
  intro x hx y hy _
  rw [List.mem_singleton.mp hx, List.mem_singleton.mp hy]
  rfl

theorem isNumber_hundredths (x : Option Int) : IsNumber (hundredths.json x) := trivial

theorem detects_iff_exposed_retoken :
    Detects hundredths (run (step hundredths) (newEngine _) [misselected]).ledger
        ((run (step hundredths) (newEngine _) [misselected]).ledger.map retoken) ↔
      (¬ (run (step hundredths) (newEngine _) [misselected]).ledger.map retoken <+:
          (run (step hundredths) (newEngine _) [misselected]).ledger →
        Exposed hundredths (run (step hundredths) (newEngine _) [misselected]).ledger
          ((run (step hundredths) (newEngine _) [misselected]).ledger.map retoken)) :=
  detects_iff_exposed hundredths isNumber_hundredths [misselected] _
    (collisionFree_retoken _)

/-- Another clearance token in a record goes unnoticed. -/
theorem not_detects :
    CollisionFree hundredths (run (step hundredths) (newEngine _) [misselected]).ledger
        ((run (step hundredths) (newEngine _) [misselected]).ledger.map retoken) ∧
      ¬ Detects hundredths (run (step hundredths) (newEngine _) [misselected]).ledger
        ((run (step hundredths) (newEngine _) [misselected]).ledger.map retoken) := by
  refine ⟨collisionFree_retoken _, fun h => ?_⟩
  obtain ⟨message, hmessage⟩ := h.2 fun hprefix => by
    have heq := hprefix.eq_of_length (List.length_map _)
    exact absurd (congrArg (List.map ExecutionRecord.mrpTokenId) heq) (by decide)
  have hverified := (passes_retoken (run (step hundredths) (newEngine _)
    [misselected]).ledger).verified isNumber_hundredths (valid_run hundredths [misselected])
  rw [verifyRecords_eq_ok.mpr hverified] at hmessage
  cases hmessage

end Adaad.MutationExecution
